import OpiaiKernel.Esched.NodeWait

/-!
# The groups of a node

A wait, a subscription and the creation of a group leave the registered threads
of the group as they are, but for the flag of the thread that waits.
-/

namespace OpiaiKernel.Esched

/-- The registered threads stay, and a thread that is not registered is idle. -/
structure Grows (grp grp' : SchedGrpCtx) : Prop where
  schedMode : grp.schedMode ≠ .uninit → grp'.schedMode = grp.schedMode
  keep : ∀ t, registered grp t = true → registered grp' t = true ∧
    (grp'.threadCtx t).bindCpuid = (grp.threadCtx t).bindCpuid ∧
    (grp'.threadCtx t).status = (grp.threadCtx t).status ∧
    ((grp.threadCtx t).waitFlag = true → (grp'.threadCtx t).waitFlag = true)
  fresh : ∀ t, registered grp t = false → (grp'.threadCtx t).status = .idle

section Grows

variable {grp grp' : SchedGrpCtx} {tid cpuid pid : ℕ}

/-- A thread that is not registered is idle. -/
def Fresh (grp : SchedGrpCtx) : Prop :=
  ∀ t, registered grp t = false → (grp.threadCtx t).status = .idle

theorem Grows.refl (h : Fresh grp) : Grows grp grp :=
  ⟨fun _ => rfl, fun _ ht => ⟨ht, rfl, rfl, fun hw => hw⟩, h⟩

theorem schedProcAddGrp_grows (hinv : GrpMapInv grp) (h : Fresh grp) (mode : GroupType)
    (threadNum : ℕ) (alloc : Bool) : Grows grp (schedProcAddGrp grp mode threadNum alloc).2 := by
  unfold schedProcAddGrp
  split_ifs with hnum huninit halloc
  · exact .refl h
  · exact .refl h
  · exact .refl h
  all_goals
    have hmode := not_not.mp huninit
    refine ⟨fun hinit => absurd hmode hinit, fun t ht => ?_, fun t _ => rfl⟩
    rw [(hinv.uninit hmode).2.1] at ht
    cases ht

theorem schedThreadSubscribeEvent_grows (h : Fresh grp) (tid : ℕ) (bitmap : BitVec 64) :
    Grows grp (schedThreadSubscribeEvent grp tid bitmap).2 := by
  have hctx (t : ℕ) : ∃ b, (schedThreadSubscribeEventCfg grp tid bitmap).threadCtx t =
      { grp.threadCtx t with subscribeEventBitmap := b } := by
    rcases eq_or_ne t tid with rfl | hne
    · refine ⟨bitmap, ?_⟩
      dsimp only [schedThreadSubscribeEventCfg]
      split <;> simp [schedAdjustThreadEvent]
    · refine ⟨(grp.threadCtx t).subscribeEventBitmap, ?_⟩
      dsimp only [schedThreadSubscribeEventCfg]
      split <;> simp [schedAdjustThreadEvent, setThreadCtx_of_ne _ _ hne]
  unfold schedThreadSubscribeEvent
  split_ifs with hzero huninit htid
  · exact .refl h
  · exact .refl h
  · exact .refl h
  · refine ⟨fun _ => ?_, fun t ht => ?_, fun t ht => ?_⟩
    · dsimp only [schedThreadSubscribeEventCfg]
      split <;> rfl
    · obtain ⟨b, hb⟩ := hctx t
      rw [registered, hb]
      exact ⟨ht, rfl, rfl, fun hw => hw⟩
    · obtain ⟨b, hb⟩ := hctx t
      rw [hb]
      exact h t ht

/-- What a wait does to the thread that waits. -/
theorem schedThreadStatusCheck_ctx (grp : SchedGrpCtx) (tid pid : ℕ) (t : ℕ) :
    let ctx := grp.threadCtx t
    let ctx' := (schedThreadStatusCheck grp tid pid).threadCtx t
    ctx'.valid = ctx.valid ∧ ctx'.bindCpuid = ctx.bindCpuid ∧ ctx'.status = ctx.status ∧
      ctx'.waitFlag = ctx.waitFlag := by
  rcases eq_or_ne t tid with rfl | hne
  · dsimp only [schedThreadStatusCheck]
    split <;> simp
  · dsimp only [schedThreadStatusCheck]
    split <;> simp [setThreadCtx_of_ne _ _ hne]

/-- The registered threads stay when only the context of one thread changes. -/
theorem setThreadCtx_grows (h : Fresh grp) {ctx : SchedThreadCtx}
    (hvalid : ctx.valid = (grp.threadCtx tid).valid)
    (hbind : ctx.bindCpuid = (grp.threadCtx tid).bindCpuid)
    (hstatus : ctx.status = (grp.threadCtx tid).status)
    (hwait : registered grp tid = true → (grp.threadCtx tid).waitFlag = true →
      ctx.waitFlag = true) : Grows grp (setThreadCtx grp tid ctx) := by
  refine ⟨fun _ => rfl, fun t ht => ?_, fun t ht => ?_⟩ <;> rcases eq_or_ne t tid with rfl | hne
  · rw [registered, setThreadCtx_self]
    exact ⟨hvalid.trans ht, hbind, hstatus, hwait ht⟩
  · rw [registered, setThreadCtx_of_ne _ _ hne]
    exact ⟨ht, rfl, rfl, fun hw => hw⟩
  · rw [setThreadCtx_self, hstatus]
    exact h t ht
  · rw [setThreadCtx_of_ne _ _ hne]
    exact h t ht

theorem Grows.fresh_after (h : Grows grp grp') : Fresh grp' := by
  intro t ht
  refine h.fresh t ?_
  by_contra hreg
  rw [Bool.not_eq_false] at hreg
  rw [(h.keep t hreg).1] at ht
  cases ht

theorem Grows.trans {grp'' : SchedGrpCtx} (h : Grows grp grp') (h' : Grows grp' grp'') :
    Grows grp grp'' := by
  refine ⟨fun hinit => ?_, fun t ht => ?_, fun t ht => ?_⟩
  · have hmode := h.schedMode hinit
    rw [h'.schedMode (by rwa [hmode]), hmode]
  · obtain ⟨hreg, hbind, hstatus, hwait⟩ := h.keep t ht
    obtain ⟨hreg', hbind', hstatus', hwait'⟩ := h'.keep t hreg
    exact ⟨hreg', hbind'.trans hbind, hstatus'.trans hstatus, fun hw => hwait' (hwait hw)⟩
  · cases hreg : registered grp' t with
    | false => exact h'.fresh t hreg
    | true =>
        rw [(h'.keep t hreg).2.2.1]
        exact h.fresh t ht

theorem schedThreadStatusCheck_grows (h : Fresh grp) (tid pid : ℕ) :
    Grows grp (schedThreadStatusCheck grp tid pid) := by
  have hctx := schedThreadStatusCheck_ctx grp tid pid
  refine ⟨fun _ => (schedThreadStatusCheck_same grp tid pid).schedMode, fun t ht => ?_,
    fun t ht => ?_⟩
  · obtain ⟨hvalid, hbind, hstatus, hwait⟩ := hctx t
    exact ⟨hvalid.trans ht, hbind, hstatus, fun hw => hwait.trans hw⟩
  · rw [(hctx t).2.2.1]
    exact h t ht

theorem added_grows (h : Fresh grp) (hnew : registered grp tid = false) (cpuid pid : ℕ) :
    Grows grp (added grp tid cpuid pid) := by
  refine ⟨fun _ => rfl, fun t ht => ?_, fun t ht => ?_⟩
  · have hne : t ≠ tid := by
      rintro rfl
      rw [hnew] at ht
      cases ht
    rw [registered_added, if_neg hne]
    simpa [added, Function.update_of_ne hne] using ht
  · rcases eq_or_ne t tid with rfl | hne
    · simp [added]
    · simp only [added, Function.update_of_ne hne]
      exact h t ht

/-- A wait that goes on has a registered thread, which did not wait before. -/
theorem schedThreadUpdate_grows (h : Fresh grp) (tid cpuid pid : ℕ) (swapout : Bool) :
    Grows grp (schedThreadUpdate grp tid cpuid pid swapout).2 ∧
      ((schedThreadUpdate grp tid cpuid pid swapout).1 = .ok () →
        (grp.threadCtx tid).waitFlag = false ∧
        registered (schedThreadUpdate grp tid cpuid pid swapout).2 tid = true ∧
        ((schedThreadUpdate grp tid cpuid pid swapout).2.threadCtx tid).waitFlag = !swapout) := by
  dsimp only [schedThreadUpdate]
  split
  · exact ⟨.refl h, fun hok => by cases hok⟩
  · next hflag =>
    have hfalse : (grp.threadCtx tid).waitFlag = false := by simpa using hflag
    have hwaiting : Grows grp
        (setThreadCtx grp tid { grp.threadCtx tid with waitFlag := !swapout }) :=
      setThreadCtx_grows h rfl rfl rfl fun _ hw => absurd hw hflag
    have hself : ((setThreadCtx grp tid
        { grp.threadCtx tid with waitFlag := !swapout }).threadCtx tid).waitFlag = !swapout := by
      simp
    split
    · next hvalid =>
        refine ⟨hwaiting.trans (schedThreadStatusCheck_grows hwaiting.fresh_after _ _),
          fun _ => ⟨hfalse, ?_, ?_⟩⟩
        · rw [registered, (schedThreadStatusCheck_ctx _ _ _ tid).1, setThreadCtx_self]
          exact hvalid
        · rw [(schedThreadStatusCheck_ctx _ _ _ tid).2.2.2, hself]
    · next hvalid =>
        have hnew : registered grp tid = false := Bool.not_eq_true _ ▸ hvalid
        have hnew' : registered (setThreadCtx grp tid
            { grp.threadCtx tid with waitFlag := !swapout }) tid = false := by
          rw [registered, setThreadCtx_self]
          exact hnew
        split
        · next e grp' hadd =>
            obtain ⟨-, rfl⟩ | ⟨hok, -, -⟩ := schedGrpAddThread_cases hadd
            · refine ⟨hwaiting.trans (setThreadCtx_grows hwaiting.fresh_after rfl rfl rfl
                fun hreg _ => ?_), fun hok => by cases hok⟩
              rw [hnew'] at hreg
              cases hreg
            · cases hok
        · next grp' hadd =>
            obtain ⟨herr, -⟩ | ⟨-, rfl, -⟩ := schedGrpAddThread_cases hadd
            · cases herr
            · have hadded := added_grows hwaiting.fresh_after hnew' cpuid pid
              refine ⟨(hwaiting.trans hadded).trans
                (schedThreadStatusCheck_grows hadded.fresh_after _ _), fun _ => ⟨hfalse, ?_, ?_⟩⟩
              · rw [registered, (schedThreadStatusCheck_ctx _ _ _ tid).1]
                exact (registered_added _ _ _ _ _).trans (if_pos rfl)
              · rw [(schedThreadStatusCheck_ctx _ _ _ tid).2.2.2]
                simp [added]

/-- A wait leaves the registered threads as they are; when it goes on, its
thread is registered and did not wait before. -/
theorem schedWaitEvent_grows (h : Fresh grp) (tid : ℕ) (cpu : Option ℕ) (pid : ℕ)
    (swapout : Bool) :
    Grows grp (schedWaitEvent grp tid cpu pid swapout).2 ∧
      ((schedWaitEvent grp tid cpu pid swapout).1 = .ok () →
        (grp.threadCtx tid).waitFlag = false ∧
        registered (schedWaitEvent grp tid cpu pid swapout).2 tid = true ∧
        (grp.schedMode = .nonSchedCpu →
          ((schedWaitEvent grp tid cpu pid swapout).2.threadCtx tid).waitFlag = true)) := by
  unfold schedWaitEvent
  split
  · exact ⟨.refl h, fun hok => nomatch hok⟩
  · next hmode =>
      split
      · exact ⟨.refl h, fun hok => nomatch hok⟩
      · next hswap =>
          split
          · exact ⟨.refl h, fun hok => nomatch hok⟩
          · obtain ⟨hgrows, hupdate⟩ :=
              schedThreadUpdate_grows h tid 0 pid swapout
            refine ⟨hgrows, fun hok => ?_⟩
            obtain ⟨hfalse, hreg, hwait⟩ := hupdate hok
            exact ⟨hfalse, hreg, fun _ => by simpa [hswap] using hwait⟩
  · next hmode =>
      split
      · exact ⟨.refl h, fun hok => nomatch hok⟩
      · split
        · exact ⟨.refl h, fun hok => nomatch hok⟩
        · next cpuid =>
            obtain ⟨hgrows, hupdate⟩ := schedThreadUpdate_grows h tid cpuid pid swapout
            refine ⟨hgrows, fun hok => ?_⟩
            obtain ⟨hfalse, hreg, -⟩ := hupdate hok
            refine ⟨hfalse, hreg, fun hnon => ?_⟩
            rw [hmode] at hnon
            cases hnon

end Grows

end OpiaiKernel.Esched
