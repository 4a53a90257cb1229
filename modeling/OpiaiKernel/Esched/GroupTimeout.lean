import OpiaiKernel.Esched.GroupMap

/-!
# The timeouts of a group

A thread that ran too long is counted as timed out for every event that it
subscribes, and recovers at its next wait.  An event id is flagged when all its
subscribers have timed out.  A change of the subscription of a thread adjusts
the map but not the count.
-/

namespace OpiaiKernel.Esched

def timedOut (grp : SchedGrpCtx) (e t : ℕ) : Bool :=
  (grp.threadCtx t).timeoutFlag && subscribed grp e t

/-- The registered threads that subscribe an event and have timed out. -/
def numTimedOut (grp : SchedGrpCtx) (e : ℕ) : ℕ := grp.thread.countP (timedOut grp e)

/-- The registered threads that subscribe an event. -/
def numSubscribed (grp : SchedGrpCtx) (e : ℕ) : ℕ := grp.thread.countP (subscribed grp e)

/-- The count of an event is that of its timed-out subscribers, and its flag is
set when these are all its subscribers. -/
def TimeoutAccount (grp : SchedGrpCtx) : Prop :=
  ∀ e, (grp.eventTimeoutInfo e).timeoutThreadNum = numTimedOut grp e ∧
    ((grp.eventTimeoutInfo e).timeoutFlag = true ↔
      numTimedOut grp e = numSubscribed grp e ∧ numTimedOut grp e ≠ 0)

/-- A change of subscription that the account survives: the thread has not
timed out, and it is not the only such subscriber of an event that it leaves to
timed-out threads. -/
def KeepsAccount (grp : SchedGrpCtx) : GrpOp → Prop
  | .subscribe tid eventBitmap =>
      eventBitmap ≠ 0 → registered grp tid = true →
        ∀ e < 64, subscribed grp e tid ≠ eventBitmap.getLsbD e →
          (grp.threadCtx tid).timeoutFlag = false ∧
            (subscribed grp e tid = true →
              ¬ (numTimedOut grp e ≠ 0 ∧ numTimedOut grp e + 1 = numSubscribed grp e))
  | _ => True

instance (grp : SchedGrpCtx) : ∀ op, Decidable (KeepsAccount grp op)
  | .subscribe _ _ => inferInstanceAs (Decidable (_ → _))
  | .addGrp _ _ _ => isTrue trivial
  | .wait _ _ _ _ => isTrue trivial
  | .waitReturn _ _ => isTrue trivial
  | .timeout _ _ => isTrue trivial

/-! ## The invariant -/

structure GrpTimeoutInv (grp : SchedGrpCtx) : Prop where
  map : GrpMapInv grp
  cfg_le : grp.cfgThreadNum ≤ SCHED_MAX_THREAD_NUM_IN_GRP
  flagged : ∀ t, (grp.threadCtx t).timeoutFlag = true →
    registered grp t = true ∧ (grp.threadCtx t).timeoutDetected = true
  account : TimeoutAccount grp

section Counts

variable {grp : SchedGrpCtx} {e t : ℕ}

theorem numTimedOut_le (grp : SchedGrpCtx) (e : ℕ) : numTimedOut grp e ≤ numSubscribed grp e :=
  List.countP_mono_left fun t _ => by simp [timedOut]

/-- A subscriber that has not timed out. -/
theorem numTimedOut_lt (h : GrpMapInv grp) (hreg : registered grp t = true)
    (hsub : subscribed grp e t = true) (hflag : (grp.threadCtx t).timeoutFlag = false) :
    numTimedOut grp e < numSubscribed grp e := by
  have hmem := (h.thread_iff t).mpr hreg
  have hchange := SwapRemove.countP_change (p := timedOut grp e)
    (q := fun b => if b = t then true else timedOut grp e b) h.thread_nodup hmem
    (fun b hb => by simp [hb])
  have hle : grp.thread.countP (fun b => if b = t then true else timedOut grp e b) ≤
      grp.thread.countP (subscribed grp e) := by
    apply List.countP_mono_left
    intro b _ hb
    split at hb
    · next heq => exact heq ▸ hsub
    · exact (Bool.and_eq_true_iff.mp hb).2
  simp only [timedOut, hflag, Bool.false_and, Bool.toNat_false, if_true, Bool.toNat_true] at hchange
  simp only [numTimedOut, numSubscribed, timedOut] at hle ⊢
  omega

theorem numSubscribed_eq_length (h : GrpMapInv grp) (e : ℕ) :
    (grp.eventThreadMap e).length = numSubscribed grp e := by
  have hperm : (grp.eventThreadMap e).Perm (grp.thread.filter (subscribed grp e)) := by
    apply (List.perm_ext_iff_of_nodup (h.map_nodup e) (h.thread_nodup.filter _)).mpr
    intro t
    rw [h.map_iff, List.mem_filter, h.thread_iff]
  rw [hperm.length_eq, numSubscribed, List.countP_eq_length_filter]

theorem GrpTimeoutInv.numSubscribed_le (h : GrpTimeoutInv grp) (e : ℕ) :
    numSubscribed grp e ≤ 1024 := by
  have hlength : grp.thread.length ≤ grp.cfgThreadNum :=
    length_le_of_tid_lt h.map.thread_nodup
      fun t ht => h.map.tid_lt t ((h.map.thread_iff t).mp ht)
  have hcount : numSubscribed grp e ≤ grp.thread.length := List.countP_le_length
  have hcfg : grp.cfgThreadNum ≤ 1024 := h.cfg_le
  omega

end Counts

/-! ## Steps that leave the account alone -/

/-- The two groups have the same threads, timeouts and counts. -/
structure SameAccount (grp grp' : SchedGrpCtx) : Prop where
  threads : SameThreads grp grp'
  eventTimeoutInfo : grp'.eventTimeoutInfo = grp.eventTimeoutInfo
  timeoutFlag : ∀ t, (grp'.threadCtx t).timeoutFlag = (grp.threadCtx t).timeoutFlag
  timeoutDetected : ∀ t, (grp'.threadCtx t).timeoutDetected = (grp.threadCtx t).timeoutDetected

section Same

variable {grp grp' : SchedGrpCtx} {tid : ℕ}

theorem SameThreads.numSubscribed (h : SameThreads grp grp') (e : ℕ) :
    numSubscribed grp' e = numSubscribed grp e := by
  rw [Esched.numSubscribed, h.thread, Esched.numSubscribed]
  exact List.countP_congr fun t _ => by rw [h.subscribed]

theorem SameAccount.numTimedOut (h : SameAccount grp grp') (e : ℕ) :
    numTimedOut grp' e = numTimedOut grp e := by
  rw [Esched.numTimedOut, h.threads.thread, Esched.numTimedOut]
  exact List.countP_congr fun t _ => by rw [timedOut, h.timeoutFlag, h.threads.subscribed, timedOut]

theorem GrpTimeoutInv.same (hinv : GrpTimeoutInv grp) (h : SameAccount grp grp') :
    GrpTimeoutInv grp' := by
  refine ⟨hinv.map.same h.threads, ?_, fun t ht => ?_, fun e => ?_⟩
  · rw [h.threads.cfgThreadNum]
    exact hinv.cfg_le
  · rw [h.timeoutFlag] at ht
    rw [h.threads.registered, h.timeoutDetected]
    exact hinv.flagged t ht
  · rw [h.eventTimeoutInfo, h.numTimedOut, h.threads.numSubscribed]
    exact hinv.account e

theorem setThreadCtx_sameAccount {ctx : SchedThreadCtx}
    (hvalid : ctx.valid = (grp.threadCtx tid).valid)
    (hbind : ctx.bindCpuid = (grp.threadCtx tid).bindCpuid)
    (hbitmap : ctx.subscribeEventBitmap = (grp.threadCtx tid).subscribeEventBitmap)
    (hflag : ctx.timeoutFlag = (grp.threadCtx tid).timeoutFlag)
    (hdetected : ctx.timeoutDetected = (grp.threadCtx tid).timeoutDetected) :
    SameAccount grp (setThreadCtx grp tid ctx) := by
  refine ⟨setThreadCtx_same hvalid hbind hbitmap, rfl, fun t => ?_, fun t => ?_⟩ <;>
    rcases eq_or_ne t tid with rfl | hne
  · simpa using hflag
  · rw [setThreadCtx_of_ne _ _ hne]
  · simpa using hdetected
  · rw [setThreadCtx_of_ne _ _ hne]

end Same

/-! ## Timeout and recovery -/

section Timeout

variable {grp : SchedGrpCtx} {tid : ℕ}

/-- What a timeout does to the counts. -/
theorem eventTimeoutInfo_timeout (hdetected : (grp.threadCtx tid).timeoutDetected = false)
    (hrun : (grp.threadCtx tid).status = .run) (timestamp e : ℕ) :
    (schedCheckThreadTimeout grp tid timestamp).eventTimeoutInfo e =
      let timeoutThreadNum := ((grp.eventTimeoutInfo e).timeoutThreadNum + 1) % 2 ^ 32
      if subscribed grp e tid = false then grp.eventTimeoutInfo e
      else if (grp.eventThreadMap e).length = timeoutThreadNum then
        { timeoutFlag := true, timeoutThreadNum, timeoutTimestamp := timestamp }
      else { grp.eventTimeoutInfo e with timeoutThreadNum } := by
  cases hsub : subscribed grp e tid with
  | false =>
      simp only [subscribed] at hsub
      simp [schedCheckThreadTimeout, hdetected, hrun, schedCheckGroupTimeout, hsub, setThreadCtx]
  | true =>
      simp only [subscribed] at hsub
      simp [schedCheckThreadTimeout, hdetected, hrun, schedCheckGroupTimeout, hsub, setThreadCtx]
      rfl

theorem threadCtx_timeout (hdetected : (grp.threadCtx tid).timeoutDetected = false)
    (hrun : (grp.threadCtx tid).status = .run) (timestamp t : ℕ) :
    (schedCheckThreadTimeout grp tid timestamp).threadCtx t =
      if t = tid then
        { grp.threadCtx tid with timeoutDetected := true, timeoutFlag := true, status := .idle }
      else grp.threadCtx t := by
  rcases eq_or_ne t tid with rfl | hne
  · simp [schedCheckThreadTimeout, hdetected, hrun, schedCheckGroupTimeout]
  · simp [schedCheckThreadTimeout, hdetected, hrun, schedCheckGroupTimeout,
      setThreadCtx_of_ne _ _ hne, hne]

/-- The counts after a step in which one registered thread changes its timeout
flag. -/
theorem numTimedOut_flag {grp' : SchedGrpCtx} (h : GrpMapInv grp) (hsame : SameThreads grp grp')
    (hreg : registered grp tid = true)
    (hother : ∀ t ≠ tid, (grp'.threadCtx t).timeoutFlag = (grp.threadCtx t).timeoutFlag) (e : ℕ) :
    numTimedOut grp' e + (timedOut grp e tid).toNat =
      numTimedOut grp e + ((grp'.threadCtx tid).timeoutFlag && subscribed grp e tid).toNat := by
  have hchange := SwapRemove.countP_change (p := timedOut grp e) (q := timedOut grp' e)
    h.thread_nodup ((h.thread_iff tid).mpr hreg)
    (fun b hb => by rw [timedOut, timedOut, hother b hb, hsame.subscribed])
  have hself : timedOut grp' e tid =
      ((grp'.threadCtx tid).timeoutFlag && subscribed grp e tid) := by
    rw [timedOut, hsame.subscribed]
  rw [numTimedOut, hsame.thread, ← hself]
  exact hchange

theorem schedCheckThreadTimeout_inv (h : GrpTimeoutInv grp) (hreg : registered grp tid = true)
    (timestamp : ℕ) : GrpTimeoutInv (schedCheckThreadTimeout grp tid timestamp) := by
  have hsame := schedCheckThreadTimeout_same grp tid timestamp
  by_cases hskip : (grp.threadCtx tid).timeoutDetected = true ∨ (grp.threadCtx tid).status ≠ .run
  · simp only [schedCheckThreadTimeout, hskip, if_true]
    exact h
  · have hdetected : (grp.threadCtx tid).timeoutDetected = false := by
      rw [← Bool.not_eq_true]
      exact fun htrue => hskip (Or.inl htrue)
    have hrun : (grp.threadCtx tid).status = .run := by
      by_contra hne
      exact hskip (Or.inr hne)
    have hflag : (grp.threadCtx tid).timeoutFlag = false := by
      rw [← Bool.not_eq_true]
      intro htrue
      rw [(h.flagged tid htrue).2] at hdetected
      cases hdetected
    have hctx := threadCtx_timeout hdetected hrun timestamp
    refine ⟨h.map.same hsame, ?_, fun t ht => ?_, fun e => ?_⟩
    · rw [hsame.cfgThreadNum]
      exact h.cfg_le
    · rw [hsame.registered]
      rw [hctx] at ht ⊢
      split at ht
      · next heq => simp [heq, hreg]
      · next hne =>
          rw [if_neg hne]
          exact h.flagged t ht
    · have hcount := numTimedOut_flag h.map hsame hreg
        (fun t ht => by rw [hctx, if_neg ht]) e
      obtain ⟨hnum, hset⟩ := h.account e
      have hlength := numSubscribed_eq_length h.map e
      have hle := h.numSubscribed_le e
      rw [hctx, if_pos rfl] at hcount
      rw [hsame.numSubscribed, eventTimeoutInfo_timeout hdetected hrun]
      cases hsub : subscribed grp e tid with
      | false =>
          simp only [timedOut, hsub, Bool.and_false, Bool.toNat_false, Nat.add_zero] at hcount
          rw [hcount]
          exact ⟨hnum, hset⟩
      | true =>
          have hlt := numTimedOut_lt h.map hreg hsub hflag
          have hoff : (grp.eventTimeoutInfo e).timeoutFlag = false := by
            rw [← Bool.not_eq_true, hset]
            omega
          have hwrap : (numTimedOut grp e + 1) % 2 ^ 32 = numTimedOut grp e + 1 :=
            Nat.mod_eq_of_lt (by omega)
          simp only [timedOut, hsub, hflag, Bool.false_and, Bool.toNat_false, Nat.add_zero,
            Bool.true_and, Bool.toNat_true] at hcount
          simp only [Bool.true_eq_false, if_false, hnum, hwrap, hlength, hcount]
          split
          · next heq => simp [heq]
          · next hne => simp [hoff, Ne.symm hne]

theorem schedThreadStatusCheck_inv (h : GrpTimeoutInv grp) (hreg : registered grp tid = true)
    (pid : ℕ) : GrpTimeoutInv (schedThreadStatusCheck grp tid pid) := by
  have hsame := schedThreadStatusCheck_same grp tid pid
  cases hflag : (grp.threadCtx tid).timeoutFlag with
  | false =>
      have hstay : schedThreadStatusCheck grp tid pid =
          setThreadCtx grp tid { grp.threadCtx tid with kernelTid := pid } := by
        simp [schedThreadStatusCheck, hflag]
      rw [hstay]
      exact h.same (setThreadCtx_sameAccount rfl rfl rfl rfl rfl)
  | true =>
      have hctx (t : ℕ) : (schedThreadStatusCheck grp tid pid).threadCtx t =
          if t = tid then
            { grp.threadCtx tid with
              kernelTid := pid, timeoutFlag := false, timeoutDetected := false }
          else grp.threadCtx t := by
        rcases eq_or_ne t tid with rfl | hne
        · simp [schedThreadStatusCheck, hflag]
        · simp [schedThreadStatusCheck, hflag, setThreadCtx_of_ne _ _ hne, hne]
      refine ⟨h.map.same hsame, ?_, fun t ht => ?_, fun e => ?_⟩
      · rw [hsame.cfgThreadNum]
        exact h.cfg_le
      · rw [hsame.registered]
        rw [hctx] at ht ⊢
        split at ht
        · cases ht
        · next hne =>
            rw [if_neg hne]
            exact h.flagged t ht
      · have hcount := numTimedOut_flag h.map hsame hreg
          (fun t ht => by rw [hctx, if_neg ht]) e
        obtain ⟨hnum, hset⟩ := h.account e
        have hle := h.numSubscribed_le e
        have hmono := numTimedOut_le grp e
        rw [hctx, if_pos rfl] at hcount
        rw [hsame.numSubscribed]
        cases hsub : subscribed grp e tid with
        | false =>
            have hinfo : (schedThreadStatusCheck grp tid pid).eventTimeoutInfo e =
                grp.eventTimeoutInfo e := by
              simp only [subscribed] at hsub
              simp [schedThreadStatusCheck, hflag, hsub, setThreadCtx]
            simp only [timedOut, hsub, Bool.and_false, Bool.toNat_false, Nat.add_zero] at hcount
            rw [hinfo, hcount]
            exact ⟨hnum, hset⟩
        | true =>
            have hinfo : (schedThreadStatusCheck grp tid pid).eventTimeoutInfo e =
                { timeoutFlag := false
                  timeoutThreadNum :=
                    ((grp.eventTimeoutInfo e).timeoutThreadNum + (2 ^ 32 - 1)) % 2 ^ 32
                  timeoutTimestamp := 0 } := by
              simp only [subscribed] at hsub
              simp [schedThreadStatusCheck, hflag, hsub, setThreadCtx]
            simp only [timedOut, hsub, hflag, Bool.true_and, Bool.toNat_true, Bool.false_and,
              Bool.toNat_false, Nat.add_zero] at hcount
            rw [hinfo]
            dsimp only
            rw [hnum]
            refine ⟨?_, ?_⟩
            · omega
            · simp only [Bool.false_eq_true, false_iff]
              omega

end Timeout

/-! ## Registration -/

section Register

variable {grp grp' : SchedGrpCtx} {tid cpuid pid : ℕ}

theorem added_timeoutInv (pid : ℕ) (h : GrpTimeoutInv grp) (htid : tid < grp.cfgThreadNum)
    (hinit : grp.schedMode ≠ .uninit) (hnew : registered grp tid = false)
    (hfree : grp.schedMode = .schedCpu → grp.cpuidToTid cpuid = grp.cfgThreadNum) :
    GrpTimeoutInv (added grp tid cpuid pid) := by
  have hnoflag : (grp.threadCtx tid).timeoutFlag = false := by
    rw [← Bool.not_eq_true]
    intro htrue
    rw [(h.flagged tid htrue).1] at hnew
    cases hnew
  have hflags (t : ℕ) : ((added grp tid cpuid pid).threadCtx t).timeoutFlag =
        (grp.threadCtx t).timeoutFlag ∧
      ((added grp tid cpuid pid).threadCtx t).timeoutDetected =
        (grp.threadCtx t).timeoutDetected := by
    rcases eq_or_ne t tid with rfl | hne
    · simp [added]
    · simp [added, Function.update_of_ne hne]
  refine ⟨added_inv pid h.map htid hinit hnew hfree, h.cfg_le, fun t ht => ?_, fun e => ?_⟩
  · rw [(hflags t).1] at ht
    rw [registered_added, (hflags t).2]
    obtain ⟨hreg, hdetected⟩ := h.flagged t ht
    exact ⟨by simp [hreg], hdetected⟩
  · have htimed : numTimedOut (added grp tid cpuid pid) e = numTimedOut grp e := by
      have hfun : timedOut (added grp tid cpuid pid) e = timedOut grp e := by
        funext t
        rw [timedOut, (hflags t).1, subscribed_added, timedOut]
      have hself : timedOut grp e tid = false := by simp [timedOut, hnoflag]
      rw [numTimedOut, hfun]
      simp [added, hself, numTimedOut]
    have hsubs : numSubscribed (added grp tid cpuid pid) e =
        numSubscribed grp e + (subscribed grp e tid).toNat := by
      have hfun : subscribed (added grp tid cpuid pid) e = subscribed grp e := by
        funext t
        rw [subscribed_added]
      rw [numSubscribed, hfun]
      cases hsub : subscribed grp e tid <;> simp [added, hsub, numSubscribed]
    obtain ⟨hnum, hset⟩ := h.account e
    have hmono := numTimedOut_le grp e
    rw [htimed, hsubs]
    cases hsub : subscribed grp e tid with
    | false => simpa [added, hsub] using And.intro hnum hset
    | true =>
        simp only [added, hsub, if_true, clearTimeoutFlag, Bool.toNat_true, Bool.false_eq_true,
          false_iff]
        exact ⟨hnum, by omega⟩

theorem schedThreadUpdate_timeoutInv (h : GrpTimeoutInv grp) (htid : tid < grp.cfgThreadNum)
    (hinit : grp.schedMode ≠ .uninit) (swapout : Bool) :
    GrpTimeoutInv (schedThreadUpdate grp tid cpuid pid swapout).2 := by
  dsimp only [schedThreadUpdate]
  split
  · exact h
  · have hwaiting : GrpTimeoutInv
        (setThreadCtx grp tid { grp.threadCtx tid with waitFlag := !swapout }) :=
      h.same (setThreadCtx_sameAccount rfl rfl rfl rfl rfl)
    split
    · next hvalid =>
        apply schedThreadStatusCheck_inv hwaiting
        simpa [registered] using hvalid
    · next hvalid =>
        split
        · next e grp' hadd =>
            obtain ⟨-, rfl⟩ | ⟨hok, -, -⟩ := schedGrpAddThread_cases hadd
            · exact hwaiting.same (setThreadCtx_sameAccount rfl rfl rfl rfl rfl)
            · cases hok
        · next grp' hadd =>
            obtain ⟨herr, -⟩ | ⟨-, rfl, hfree⟩ := schedGrpAddThread_cases hadd
            · cases herr
            · apply schedThreadStatusCheck_inv
              · apply added_timeoutInv pid hwaiting htid hinit _ hfree
                simpa [registered] using hvalid
              · rw [registered_added, if_pos rfl]

theorem schedWaitEvent_timeoutInv (h : GrpTimeoutInv grp) (cpu : Option ℕ) (swapout : Bool) :
    GrpTimeoutInv (schedWaitEvent grp tid cpu pid swapout).2 := by
  unfold schedWaitEvent
  split
  · exact h
  · next hmode =>
      split
      · exact h
      · split
        · exact h
        · next hlt => exact schedThreadUpdate_timeoutInv h (by omega) (by simp [hmode]) swapout
  · next hmode =>
      split
      · exact h
      · next hlt =>
          split
          · exact h
          · exact schedThreadUpdate_timeoutInv h (by omega) (by simp [hmode]) swapout

theorem schedProcAddGrp_timeoutInv (h : GrpTimeoutInv grp) (mode : GroupType) (threadNum : ℕ)
    (alloc : Bool) : GrpTimeoutInv (schedProcAddGrp grp mode threadNum alloc).2 := by
  have hmap := schedProcAddGrp_inv h.map mode threadNum alloc
  unfold schedProcAddGrp at hmap ⊢
  split
  · exact h
  · next hbad =>
      split
      · exact h
      · next huninit =>
          split
          · exact h
          · next halloc =>
              rw [if_neg hbad, if_neg huninit, if_neg halloc] at hmap
              have hthread := (h.map.uninit (not_not.mp huninit)).1
              refine ⟨hmap, ?_, fun t ht => ?_, fun e => ?_⟩
              · dsimp only
                omega
              · cases ht
              · have haccount := h.account e
                simp only [numTimedOut, numSubscribed, hthread, List.countP_nil] at haccount ⊢
                exact haccount

end Register

/-! ## Subscriptions -/

section Subscribe

variable {grp : SchedGrpCtx} {tid : ℕ} {bitmap : BitVec 64}

theorem flags_subscribe (grp : SchedGrpCtx) (tid : ℕ) (bitmap : BitVec 64) (t : ℕ) :
    ((schedThreadSubscribeEventCfg grp tid bitmap).threadCtx t).timeoutFlag =
        (grp.threadCtx t).timeoutFlag ∧
      ((schedThreadSubscribeEventCfg grp tid bitmap).threadCtx t).timeoutDetected =
        (grp.threadCtx t).timeoutDetected := by
  rcases eq_or_ne t tid with rfl | hne
  · dsimp only [schedThreadSubscribeEventCfg]
    split <;> simp [schedAdjustThreadEvent]
  · dsimp only [schedThreadSubscribeEventCfg]
    split <;> simp [schedAdjustThreadEvent, setThreadCtx_of_ne _ _ hne]

theorem thread_subscribe (grp : SchedGrpCtx) (tid : ℕ) (bitmap : BitVec 64) :
    (schedThreadSubscribeEventCfg grp tid bitmap).thread = grp.thread := by
  dsimp only [schedThreadSubscribeEventCfg]
  split <;> rfl

/-- What a subscription does to the counts of an event. -/
theorem eventTimeoutInfo_subscribe (grp : SchedGrpCtx) (tid : ℕ) (bitmap : BitVec 64) (e : ℕ) :
    (schedThreadSubscribeEventCfg grp tid bitmap).eventTimeoutInfo e =
      if registered grp tid = true ∧ subscribed grp e tid = false ∧ bitmap.getLsbD e = true then
        clearTimeoutFlag (grp.eventTimeoutInfo e)
      else grp.eventTimeoutInfo e := by
  by_cases hvalid : (grp.threadCtx tid).valid = true
  · simp only [schedThreadSubscribeEventCfg, registered, subscribed, hvalid, if_true, setThreadCtx,
      schedAdjustThreadEvent, schedAdjustEventThreadMap, true_and]
    cases hold : (grp.threadCtx tid).subscribeEventBitmap.getLsbD e <;>
      cases hnew : bitmap.getLsbD e <;> rfl
  · simp only [Bool.not_eq_true] at hvalid
    simp [schedThreadSubscribeEventCfg, registered, hvalid, setThreadCtx]

/-- The counts of the events after a subscription. -/
theorem counts_subscribe (h : GrpMapInv grp) (hreg : registered grp tid = true)
    (bitmap : BitVec 64) (e : ℕ) :
    numSubscribed (schedThreadSubscribeEventCfg grp tid bitmap) e +
        (subscribed grp e tid).toNat =
      numSubscribed grp e + (bitmap.getLsbD e).toNat ∧
    numTimedOut (schedThreadSubscribeEventCfg grp tid bitmap) e + (timedOut grp e tid).toNat =
      numTimedOut grp e + ((grp.threadCtx tid).timeoutFlag && bitmap.getLsbD e).toNat := by
  have hmem := (h.thread_iff tid).mpr hreg
  have hsub (t : ℕ) := subscribed_subscribe grp tid bitmap e t
  have hflag (t : ℕ) := (flags_subscribe grp tid bitmap t).1
  constructor
  · have hchange := SwapRemove.countP_change (p := subscribed grp e)
      (q := subscribed (schedThreadSubscribeEventCfg grp tid bitmap) e) h.thread_nodup hmem
      (fun b hb => by rw [hsub, if_neg hb])
    rw [hsub, if_pos rfl] at hchange
    rw [numSubscribed, thread_subscribe]
    exact hchange
  · have hchange := SwapRemove.countP_change (p := timedOut grp e)
      (q := timedOut (schedThreadSubscribeEventCfg grp tid bitmap) e) h.thread_nodup hmem
      (fun b hb => by rw [timedOut, timedOut, hsub, hflag, if_neg hb])
    have hself : timedOut (schedThreadSubscribeEventCfg grp tid bitmap) e tid =
        ((grp.threadCtx tid).timeoutFlag && bitmap.getLsbD e) := by
      rw [timedOut, hsub, hflag, if_pos rfl]
    rw [hself] at hchange
    rw [numTimedOut, thread_subscribe]
    exact hchange

/-- The subscription of a thread that is not registered counts for nothing. -/
theorem counts_subscribe_new (h : GrpMapInv grp) (hnew : registered grp tid = false)
    (bitmap : BitVec 64) (e : ℕ) :
    numSubscribed (schedThreadSubscribeEventCfg grp tid bitmap) e = numSubscribed grp e ∧
      numTimedOut (schedThreadSubscribeEventCfg grp tid bitmap) e = numTimedOut grp e := by
  have hne {t : ℕ} (ht : t ∈ grp.thread) : t ≠ tid := by
    rintro rfl
    rw [(h.thread_iff t).mp ht] at hnew
    cases hnew
  constructor
  · rw [numSubscribed, thread_subscribe, numSubscribed]
    apply List.countP_congr
    intro t ht
    rw [subscribed_subscribe, if_neg (hne ht)]
  · rw [numTimedOut, thread_subscribe, numTimedOut]
    apply List.countP_congr
    intro t ht
    rw [timedOut, timedOut, (flags_subscribe grp tid bitmap t).1, subscribed_subscribe,
      if_neg (hne ht)]

theorem schedThreadSubscribeEventCfg_timeoutInv (h : GrpTimeoutInv grp)
    (htid : tid < grp.cfgThreadNum) (hinit : grp.schedMode ≠ .uninit)
    (hkeeps : registered grp tid = true → ∀ e < 64, subscribed grp e tid ≠ bitmap.getLsbD e →
      (grp.threadCtx tid).timeoutFlag = false ∧ (subscribed grp e tid = true →
        ¬ (numTimedOut grp e ≠ 0 ∧ numTimedOut grp e + 1 = numSubscribed grp e))) :
    GrpTimeoutInv (schedThreadSubscribeEventCfg grp tid bitmap) := by
  refine ⟨schedThreadSubscribeEventCfg_inv h.map htid hinit bitmap, ?_, fun t ht => ?_,
    fun e => ?_⟩
  · have hcfg : (schedThreadSubscribeEventCfg grp tid bitmap).cfgThreadNum =
        grp.cfgThreadNum := by
      dsimp only [schedThreadSubscribeEventCfg]
      split <;> rfl
    rw [hcfg]
    exact h.cfg_le
  · rw [(flags_subscribe grp tid bitmap t).1] at ht
    rw [registered_subscribe, (flags_subscribe grp tid bitmap t).2]
    exact h.flagged t ht
  · obtain ⟨hnum, hset⟩ := h.account e
    rw [eventTimeoutInfo_subscribe]
    cases hreg : registered grp tid with
    | false =>
        obtain ⟨hsubs, htimed⟩ := counts_subscribe_new h.map hreg bitmap e
        rw [hsubs, htimed, if_neg (by simp)]
        exact ⟨hnum, hset⟩
    | true =>
        obtain ⟨hsubs, htimed⟩ := counts_subscribe h.map hreg bitmap e
        have hmono := numTimedOut_le grp e
        rcases eq_or_ne (subscribed grp e tid) (bitmap.getLsbD e) with heq | hdiff
        · -- the bit does not change
          rw [← heq] at hsubs htimed ⊢
          rw [Nat.add_right_cancel hsubs, Nat.add_right_cancel htimed, if_neg (by simp)]
          exact ⟨hnum, hset⟩
        · have he : e < 64 := by
            by_contra hge
            simp [subscribed, BitVec.getLsbD_of_ge _ e (Nat.le_of_not_lt hge)] at hdiff
          obtain ⟨hflag, hleft⟩ := hkeeps hreg e he hdiff
          simp only [timedOut, hflag, Bool.false_and, Bool.toNat_false, Nat.add_zero] at htimed
          rw [htimed]
          cases hold : subscribed grp e tid with
          | false =>
              have hnew : bitmap.getLsbD e = true := by simpa [hold] using hdiff.symm
              simp only [hold, hnew, Bool.toNat_false, Bool.toNat_true, Nat.add_zero] at hsubs
              simp only [hnew, and_self, if_true, clearTimeoutFlag, hsubs, Bool.false_eq_true,
                false_iff]
              exact ⟨hnum, by omega⟩
          | true =>
              have hnew : bitmap.getLsbD e = false := by simpa [hold] using hdiff.symm
              have hlt := numTimedOut_lt h.map hreg hold hflag
              have hleft := hleft hold
              simp only [hold, hnew, Bool.toNat_false, Bool.toNat_true, Nat.add_zero] at hsubs
              simp only [Bool.true_eq_false, false_and, and_false, if_false]
              refine ⟨hnum, ?_⟩
              rw [hset]
              omega

end Subscribe

/-! ## Runs -/

theorem grpStep_timeoutInv {grp grp' : SchedGrpCtx} {op : GrpOp} (h : GrpTimeoutInv grp)
    (hkeeps : KeepsAccount grp op) (hstep : grpStep grp op = some grp') : GrpTimeoutInv grp' := by
  cases op with
  | addGrp mode threadNum alloc =>
      obtain rfl := Option.some.inj hstep
      exact schedProcAddGrp_timeoutInv h mode threadNum alloc
  | subscribe tid bitmap =>
      obtain rfl := Option.some.inj hstep
      unfold schedThreadSubscribeEvent
      split
      · exact h
      · next hbitmap =>
          split
          · exact h
          · next hinit =>
              split
              · exact h
              · exact schedThreadSubscribeEventCfg_timeoutInv h (by omega) hinit (hkeeps hbitmap)
  | wait tid cpuid pid swapout =>
      obtain rfl := Option.some.inj hstep
      exact schedWaitEvent_timeoutInv h cpuid swapout
  | waitReturn tid status =>
      simp only [grpStep, Option.ite_none_right_eq_some, Option.some.injEq] at hstep
      obtain ⟨-, rfl⟩ := hstep
      exact h.same (setThreadCtx_sameAccount rfl rfl rfl rfl rfl)
  | timeout tid timestamp =>
      simp only [grpStep, Option.ite_none_right_eq_some, Option.some.injEq] at hstep
      obtain ⟨⟨hreg, -⟩, rfl⟩ := hstep
      exact schedCheckThreadTimeout_inv h hreg timestamp

/-- Where every change of subscription keeps it, the account is right in every
state. -/
theorem timeoutAccount_of_keeps {grp : SchedGrpCtx} (h : grpMachine.ReachIf KeepsAccount grp) :
    TimeoutAccount grp := by
  refine GrpTimeoutInv.account (h.invariant ?_ ?_)
  · rintro grp rfl
    refine ⟨zeroGrpCtx_mapInv, Nat.zero_le _, fun t ht => ?_, fun e => ?_⟩
    · cases ht
    · simp [zeroGrpCtx, numTimedOut]
  · intro grp op grp' hinv hkeeps hstep
    exact grpStep_timeoutInv hinv hkeeps hstep

/-- A thread times out, another one changes its subscription, and the first one
recovers. -/
def timeoutRun : List GrpOp :=
  [.addGrp .bindDpCpu 2 true, .subscribe 0 1, .subscribe 1 1, .wait 0 (some 1) 100 false,
    .wait 1 (some 2) 101 false, .waitReturn 0 .run, .timeout 0 5, .subscribe 1 3,
    .wait 0 (some 1) 100 false]

theorem timeoutAccount_of_keeps_recovered :
    let grp := grpMachine.final zeroGrpCtx timeoutRun
    (grp.eventTimeoutInfo 0).timeoutThreadNum = 0 ∧ TimeoutAccount grp := by
  refine ⟨by decide +kernel, timeoutAccount_of_keeps ?_⟩
  exact Machine.ReachIf.final (.start rfl) (by decide +kernel) (by decide +kernel)

/-- A thread that has timed out subscribes another event before it recovers. -/
def underflowRun : List GrpOp :=
  [.addGrp .bindDpCpu 1 true, .subscribe 0 1, .wait 0 (some 1) 100 false, .waitReturn 0 .run,
    .timeout 0 5, .subscribe 0 3, .wait 0 (some 1) 100 false]

theorem timeout_count_underflows :
    let grp := grpMachine.final zeroGrpCtx underflowRun
    grpMachine.Reach grp ∧ (grp.eventTimeoutInfo 1).timeoutThreadNum = 2 ^ 32 - 1 ∧
      ¬ TimeoutAccount grp := by
  refine ⟨Machine.Reach.final (.start rfl) (by decide +kernel), by decide +kernel, fun h => ?_⟩
  have hnum := (h 1).1
  revert hnum
  decide +kernel

end OpiaiKernel.Esched
