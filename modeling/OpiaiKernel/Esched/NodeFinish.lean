import OpiaiKernel.Esched.NodeSearch

/-!
# The invariant over a wait

A thread that waits gives its last event back, takes a new one or sleeps, and is
woken or gives up.
-/

namespace OpiaiKernel.Esched

variable {cfg : NodeCfg} {s s' : SchedNode} {k : GrpId} {t : ThreadId} {o cpuid : ℕ} {c : Call}
  {why : Finish}

/-! ## Finishing -/

theorem view_setGrp_congr (s : SchedNode) {grp grp' : SchedGrpCtx}
    (hmode : grp.schedMode = grp'.schedMode) (hctx : grp.threadCtx = grp'.threadCtx) :
    (s.setGrp k grp).view = (s.setGrp k grp').view := by
  have hthread (u : ThreadId) : (s.setGrp k grp).thread u = (s.setGrp k grp').thread u := by
    rcases eq_or_ne u.1 k with rfl | hne
    · simp [SchedNode.thread, SchedNode.setGrp, hctx]
    · simp [SchedNode.thread, SchedNode.setGrp, Function.update_of_ne hne]
  have hmodes (k' : GrpId) : (s.setGrp k grp).mode k' = (s.setGrp k grp').mode k' := by
    rcases eq_or_ne k' k with rfl | hne
    · simp [SchedNode.mode, SchedNode.setGrp, hmode]
    · simp [SchedNode.mode, SchedNode.setGrp, Function.update_of_ne hne]
  simp only [SchedNode.view, hthread, hmodes]
  rfl

theorem NodeInv.finishBegin (h : NodeInv cfg s) (hquiet : Quiet s.view t s.calls)
    (hvalid : (s.thread t).valid = true) (hslot : s.slot t = some o)
    (hwait : s.mode t.1 = .nonSchedCpu → (s.thread t).waitFlag = true)
    (hwhy : match why with
      | .wait _ => (s.thread t).status = .run
      | .timeout c _ | .exit c => s.cur c = some t) :
    NodeInv cfg (finishBegin s t why o) := by
  apply NodeInv.exclusiveFinish
  exact h.start ⟨rfl, rfl, rfl, rfl, rfl, rfl, fun _ hp => hp⟩ (fun k => .refl _) rfl trivial rfl
    rfl (fun k => rfl) (h.thread.finishBegin hquiet hvalid hslot hwait hwhy)

/-- The wait goes on without an event of its thread, or with one that does not run. -/
theorem NodeInv.waitEnter (h : NodeInv cfg s) (hquiet : Quiet s.view t s.calls)
    (hvalid : (s.thread t).valid = true)
    (hwait : s.mode t.1 = .nonSchedCpu → (s.thread t).waitFlag = true)
    (hslot : s.slot t = none ∨ (s.thread t).status ≠ .run) (cpuid : ℕ) :
    NodeInv cfg (waitEnter s t cpuid) := by
  have hself : Function.update s.view.slot t (s.slot t) = s.view.slot :=
    Function.update_eq_self t s.slot
  have hkept : s.slot t = none ∨ s.slot t = s.view.slot t ∧ s.view.status t ≠ .run :=
    hslot.imp_right fun hstatus => ⟨rfl, hstatus⟩
  have henter := h.thread.enter hquiet hvalid hwait hkept cpuid
  rw [hself] at henter
  by_cases hrun : s.mode t.1 = .nonSchedCpu ∧ (s.thread t).status = .run
  · have hstop : Esched.waitEnter s t cpuid =
        { s with calls := .entered t cpuid :: s.calls }.setStatus t .idle := if_pos hrun
    have hidle : s.view.mode t.1 = .nonSchedCpu ∧ s.view.status t = .run := hrun
    rw [if_pos hidle] at henter
    rw [hstop]
    refine h.start ⟨rfl, rfl, rfl, rfl, rfl, rfl, fun _ hp => hp⟩ (same_setStatus _ t .idle) rfl
      trivial rfl rfl (fun k => rfl) ?_
    rw [view_setStatus]
    exact henter
  · have hgo : Esched.waitEnter s t cpuid = { s with calls := .entered t cpuid :: s.calls } :=
      if_neg hrun
    have hstay : ¬ (s.view.mode t.1 = .nonSchedCpu ∧ s.view.status t = .run) := hrun
    rw [if_neg hstay, Function.update_eq_self] at henter
    rw [hgo]
    exact h.start ⟨rfl, rfl, rfl, rfl, rfl, rfl, fun _ hp => hp⟩ (fun k => .refl _) rfl
      trivial rfl rfl (fun k => rfl) henter

/-- A thread without an event leaves its cpu. -/
theorem NodeInv.stop (h : NodeInv cfg s) (hquiet : Quiet s.view t s.calls)
    (hcur : s.cur cpuid = some t) (hslot : s.slot t = none) {grp : SchedGrpCtx}
    (hsame : SameThreads (s.grp t.1) grp)
    (hview : (s.setGrp t.1 grp).view =
      { s.view with status := Function.update s.view.status t .idle }) :
    NodeInv cfg ((s.setGrp t.1 grp).setCur cpuid none) := by
  have hself : Function.update s.slot t none = s.slot := hslot ▸ Function.update_eq_self t s.slot
  refine h.threads ⟨rfl, rfl, rfl, rfl, rfl, rfl, fun _ hp => hp⟩ (fun k => ?_) rfl ?_
  · rcases eq_or_ne k t.1 with rfl | hne
    · simpa [SchedNode.setGrp, SchedNode.setCur] using hsame
    · simpa [SchedNode.setGrp, SchedNode.setCur, Function.update_of_ne hne] using .refl _
  · have hstop := h.thread.stop hquiet hcur
    rw [show Function.update s.view.slot t none = s.slot from hself] at hstop
    have hset : ((s.setGrp t.1 grp).setCur cpuid none).view =
        { (s.setGrp t.1 grp).view with cur := Function.update s.cur cpuid none } := rfl
    rw [hset, hview]
    exact hstop

theorem NodeInv.exitStop (h : NodeInv cfg s) (hquiet : Quiet s.view t s.calls)
    (hcur : s.cur cpuid = some t) (hslot : s.slot t = none) :
    NodeInv cfg ((s.setStatus t .idle).setCur cpuid none) :=
  h.stop hquiet hcur hslot (setThreadCtx_same rfl rfl rfl) (view_setStatus s t .idle)

theorem NodeInv.timeoutStop (h : NodeInv cfg s) (hquiet : Quiet s.view t s.calls)
    (hcur : s.cur cpuid = some t) (hslot : s.slot t = none) (timestamp : ℕ) :
    NodeInv cfg ((s.setGrp t.1 (threadTimedOut (s.grp t.1) t.2 timestamp)).setCur cpuid none) := by
  have hset : SameThreads (s.grp t.1) (setThreadCtx (s.grp t.1) t.2
      { (s.grp t.1).threadCtx t.2 with
        timeoutDetected := true, timeoutFlag := true, status := .idle }) :=
    setThreadCtx_same rfl rfl rfl
  refine h.stop hquiet hcur hslot (hset.timeoutInfo _) ?_
  have hview := view_setThread s t (fun ctx =>
    { ctx with timeoutDetected := true, timeoutFlag := true, status := .idle }) rfl rfl
  have hwait : Function.update s.view.wait t (s.thread t).waitFlag = s.view.wait :=
    Function.update_eq_self t s.view.wait
  rw [hwait] at hview
  rw [← hview]
  exact view_setGrp_congr s rfl rfl

/-- The event of a thread goes back to its queue. -/
theorem NodeInv.freed (h : NodeInv cfg s) (hc : .finish t why o ∈ s.calls) :
    NodeInv cfg ((schedFreeThreadEvent cfg s t o).become (.finish t why o) []) ∧
      Quiet ((schedFreeThreadEvent cfg s t o).become (.finish t why o) []).view t
        ((schedFreeThreadEvent cfg s t o).become (.finish t why o) []).calls := by
  obtain ⟨hvalid, hslot, -, hwhy⟩ := h.thread.call _ hc
  have hquiet := h.thread.quiet hc (t := t) (by simp [Call.busy, Call.locks]) (fun hmode => ?_)
    (by simp)
  · refine ⟨h.step (fun k => .refl _) (fun _ hp => hp) (sameEvent_enque cfg _ o)
      (fun n hn => Or.inl (List.mem_of_mem_erase hn)) (fun l o' ho' => Or.inl ho')
      (fun u o' ho' => ?_) ?_ ((h.custody_rest hc rfl).takeSlot hslot).enque
      (h.count.move hc rfl rfl h.count.inRange ?_ fun k => ?_), ?_⟩
    · rcases eq_or_ne u t with rfl | hne
      · simp [schedFreeThreadEvent, schedEventEnqueLock, SchedNode.setSlot] at ho'
      · left
        simpa [schedFreeThreadEvent, schedEventEnqueLock, SchedNode.setSlot,
          Function.update_of_ne hne] using ho'
    · have hchange := h.thread.changeQuiet none (s.view.status t) (s.view.wait t) none hquiet
        (by simp) (by simp) hvalid (h.thread.active t) (fun hsome => absurd rfl hsome)
      rwa [Function.update_eq_self, Function.update_eq_self] at hchange
    · simp [Call.uncounted, schedFreeThreadEvent, schedEventEnqueLock, SchedNode.setSlot]
    · simp [Call.counted, schedFreeThreadEvent, schedEventEnqueLock, SchedNode.setSlot]
    · exact Quiet.of_idle hquiet.busy hquiet.waits
  · -- only scheduled threads are on a cpu
    cases why with
    | wait cpuid => simp [Call.waits]
    | timeout c ts =>
        have hsched := (h.thread.cur c t hwhy).2.mode
        rw [hmode] at hsched
        cases hsched
    | exit c =>
        have hsched := (h.thread.cur c t hwhy).2.mode
        rw [hmode] at hsched
        cases hsched

theorem NodeInv.finishEnd (h : NodeInv cfg s) (hc : .finish t why o ∈ s.calls) :
    NodeInv cfg (finishEnd cfg s t why o) := by
  obtain ⟨hvalid, -, hwait, hwhy⟩ := h.thread.call _ hc
  obtain ⟨hfreed, hquiet⟩ := h.freed hc
  have hnone : ((schedFreeThreadEvent cfg s t o).become (.finish t why o) []).slot t = none :=
    Function.update_self ..
  cases why with
  | wait cpuid => exact hfreed.waitEnter hquiet hvalid hwait (.inl hnone) cpuid
  | timeout c timestamp => exact hfreed.timeoutStop hquiet hwhy hnone timestamp
  | exit c => exact hfreed.exitStop hquiet hwhy hnone

/-- A thread that runs is finished. -/
theorem NodeInv.threadFinish (h : NodeInv cfg s) (hquiet : Quiet s.view t s.calls)
    (hvalid : (s.thread t).valid = true)
    (hwait : s.mode t.1 = .nonSchedCpu → (s.thread t).waitFlag = true)
    (hwhy : match why with
      | .wait _ => (s.thread t).status = .run
      | .timeout c _ | .exit c => s.cur c = some t) :
    NodeInv cfg (threadFinish s t why) := by
  unfold Esched.threadFinish
  split
  · next hslot =>
      cases why with
      | wait cpuid => exact h.waitEnter hquiet hvalid hwait (.inl hslot) cpuid
      | timeout c timestamp => exact h.timeoutStop hquiet hwhy hslot timestamp
      | exit c => exact h.exitStop hquiet hwhy hslot
  · next o hslot => exact h.finishBegin hquiet hvalid hslot hwait hwhy

/-- A thread on a cpu has no call to itself when its mutex is free and it fetches no
event. -/
theorem NodeInv.quiet_cur (h : NodeInv cfg s) (hcur : s.cur cpuid = some t)
    (hfree : s.mutexFree t) (hexact : ∀ n ∈ s.calls, n.isExact t = false) :
    Quiet s.view t s.calls := by
  refine Quiet.of_idle (fun n hn => ?_) fun hmode => ?_
  · have hlocks := List.all_eq_true.mp hfree n hn
    simp only [Bool.not_eq_true'] at hlocks
    rw [Call.busy, hlocks, hexact n hn]
    rfl
  · have hsched := (h.thread.cur cpuid t hcur).2.mode
    rw [hmode] at hsched
    cases hsched

theorem NodeInv.finishCur (h : NodeInv cfg s) (hcur : s.cur cpuid = some t)
    (hfree : s.mutexFree t) (hexact : ∀ n ∈ s.calls, n.isExact t = false)
    (hwhy : (∃ timestamp, why = .timeout cpuid timestamp) ∨ why = .exit cpuid) :
    NodeInv cfg (Esched.threadFinish s t why) := by
  obtain ⟨-, hb⟩ := h.thread.cur cpuid t hcur
  refine h.threadFinish (h.quiet_cur hcur hfree hexact) hb.valid (fun hmode => ?_) ?_
  · have hsched := hb.mode
    rw [show s.view.mode t.1 = .nonSchedCpu from hmode] at hsched
    cases hsched
  · rcases hwhy with ⟨timestamp, rfl⟩ | rfl
    · exact hcur
    · exact hcur

/-! ## The wait -/

theorem NodeInv.wait (h : NodeInv cfg s) (hfree : s.mutexFree t)
    (hexact : (s.thread t).status = .run → ∀ n ∈ s.calls, n.isExact t = false)
    (cpuid pid : ℕ) (swapout : Bool) : NodeInv cfg (schedWait s t cpuid pid swapout) := by
  obtain ⟨hgrows, hok⟩ :=
    schedWaitEvent_grows (h.fresh t.1) t.2 (some cpuid) pid swapout
  have hset : NodeInv cfg
      (s.setGrp t.1 (schedWaitEvent (s.grp t.1) t.2 (some cpuid) pid swapout).2) := by
    refine h.setGrp hgrows (schedWaitEvent_inv (h.group t.1) _ _) fun hsmall => ?_
    have hmode : (s.grp t.1).schedMode = .uninit := h.small t.1 hsmall
    rw [schedWaitEvent, hmode]
    exact hmode
  have hinit : (schedWaitEvent (s.grp t.1) t.2 (some cpuid) pid swapout).1 = .ok () →
      s.mode t.1 ≠ .uninit := by
    intro hok hmode
    have hmode : (s.grp t.1).schedMode = .uninit := hmode
    simp [schedWaitEvent, hmode] at hok
  dsimp only [schedWait]
  generalize schedWaitEvent (s.grp t.1) t.2 (some cpuid) pid swapout = r at hgrows hok hset hinit ⊢
  obtain ⟨e | ⟨⟩, grp⟩ := r
  · exact hset
  obtain ⟨hnowait, hreg, hwait⟩ := hok rfl
  dsimp only at hgrows hset hreg hwait ⊢
  have hthread : (s.setGrp t.1 grp).thread t = grp.threadCtx t.2 := by
    simp [SchedNode.setGrp, SchedNode.thread]
  have hmode : (s.setGrp t.1 grp).mode t.1 = grp.schedMode := by
    simp [SchedNode.setGrp, SchedNode.mode]
  have hvalid : ((s.setGrp t.1 grp).thread t).valid = true := by
    rw [hthread]
    exact hreg
  have hnon : (s.setGrp t.1 grp).mode t.1 = .nonSchedCpu → s.mode t.1 = .nonSchedCpu := by
    intro hnon
    rw [hmode] at hnon
    exact (hgrows.schedMode (hinit rfl)).symm.trans hnon
  have hquiet : Quiet (s.setGrp t.1 grp).view t (s.setGrp t.1 grp).calls := by
    refine Quiet.of_idle (fun n hn => ?_) fun hm n hn => ?_
    · have hlocks := List.all_eq_true.mp hfree n hn
      simp only [Bool.not_eq_true'] at hlocks
      have hno : n.isExact t = false := by
        cases n with
        | exact u o' old =>
            by_contra hu
            simp only [Call.isExact, decide_eq_false_iff_not, not_not] at hu
            subst hu
            have hrun : (s.thread u).status = .run := (h.thread.call _ hn).2.2
            have hnot := hexact hrun _ hn
            simp [Call.isExact] at hnot
        | _ => rfl
      rw [Call.busy, hlocks, hno]
      rfl
    · exact h.thread.not_waits (hnon hm) hnowait hn
  have hflag : (s.setGrp t.1 grp).mode t.1 = .nonSchedCpu →
      ((s.setGrp t.1 grp).thread t).waitFlag = true := by
    intro hm
    rw [hthread]
    exact hwait (hnon hm)
  split_ifs with hrunning
  · have hkeep := hgrows.keep t.2 hrunning.1
    refine hset.threadFinish hquiet hvalid hflag ?_
    rw [hthread]
    exact hkeep.2.2.1.trans hrunning.2
  · refine hset.waitEnter hquiet hvalid hflag (.inr fun hrun => ?_) cpuid
    rw [hthread] at hrun
    by_cases hold : registered (s.grp t.1) t.2 = true
    · have hstatus := (hgrows.keep t.2 hold).2.2.1
      exact hrunning ⟨hold, hstatus.symm.trans hrun⟩
    · rw [hgrows.fresh t.2 (Bool.not_eq_true _ ▸ hold)] at hrun
      cases hrun

/-- A thread that has stopped switches its cpu. -/
theorem NodeInv.switch (h : NodeInv cfg s) (hc : .entered t cpuid ∈ s.calls)
    (hmode : s.mode t.1 = .schedCpu) (hbind : (s.thread t).bindCpuid = cpuid)
    (hrun : (s.thread t).status = .run) :
    NodeInv cfg (s.become (.entered t cpuid) [.search cpuid (some t)]) :=
  h.become hc ⟨rfl, rfl, rfl, rfl, rfl, rfl, fun _ hp => hp⟩ (fun k => .refl _) rfl
    (by simp [CallEvent]) rfl rfl (fun k => rfl) (h.thread.switch hc hmode hbind hrun)

theorem NodeInv.takeNonSched (h : NodeInv cfg s) (hc : .entered t cpuid ∈ s.calls)
    (hmode : s.mode t.1 = .nonSchedCpu) (eventPri : ℕ) :
    NodeInv cfg (schedTakeNonSched s t cpuid eventPri) := by
  unfold schedTakeNonSched
  split
  · exact h
  next o eventList htake =>
  obtain ⟨hmem, hhead, hnum, -⟩ := takeFirst_erase htake
  obtain ⟨hempty, hthread⟩ := h.thread.takeNonSched hc hmode o
  have hl := h.count.inRange_of_mem hmem
  have hnamed : Named s t.1 o := (h.event.list _ o hmem).1
  let grpEventNum := Function.update s.grpEventNum t.1 (s.grpEventNum t.1 - 1)
  let taken :=
    ({ s with grpEventNum }.setList (.nonSched t.1 eventPri) eventList).setSlot t (some o)
  let run : SchedThreadCtx → SchedThreadCtx := ({ · with status := .run, waitFlag := false })
  have hview : (taken.setThread t run).view = _ := view_setThread taken t run rfl rfl
  have hsame : ∀ k, SameThreads (taken.grp k) ((taken.setThread t run).grp k) :=
    same_setThread taken t rfl rfl rfl
  have hmodes : (taken.setThread t run).mode = s.mode := funext (mode_setThread taken t run)
  refine h.step hsame (fun _ hp => hp)
    (fun o => ⟨rfl, fun _ hm => hm⟩) (fun n hn => Or.inl (List.mem_of_mem_erase hn))
    (fun l o' ho' => Or.inl ?_) (fun u o' ho' => ?_) ?_
    (((h.custody_rest hc rfl).take hmem hhead hnum).putSlot hempty)
    (h.count.move hc rfl hmodes (fun l' hl' => ?_) ?_ fun k => ?_)
  · rcases eq_or_ne l (.nonSched t.1 eventPri) with rfl | hne
    · have hold : o' ∈ eventList.head := by
        simpa [SchedNode.setThread, SchedNode.setGrp, SchedNode.setSlot, SchedNode.setList]
          using ho'
      rw [hhead] at hold
      exact List.mem_of_mem_erase hold
    · simpa [SchedNode.setThread, SchedNode.setGrp, SchedNode.setSlot, SchedNode.setList,
        Function.update_of_ne hne] using ho'
  · rcases eq_or_ne u t with rfl | hne
    · have heq : some o = some o' := by
        simpa [SchedNode.setThread, SchedNode.setGrp, SchedNode.setSlot] using ho'
      exact Or.inr (Option.some.inj heq ▸ hnamed.grpId)
    · left
      simpa [SchedNode.setThread, SchedNode.setGrp, SchedNode.setSlot, SchedNode.setList,
        Function.update_of_ne hne] using ho'
  · have hend : ((taken.setThread t run).become (.entered t cpuid) []).view =
        { (taken.setThread t run).view with calls := [] ++ s.calls.erase (.entered t cpuid) } := rfl
    rw [hend, hview]
    exact hthread
  · exact inRange_setList h.count hl l' hl'
  · have hsum : schedListNum cfg ((taken.setThread t run).become (.entered t cpuid) []).list =
        schedListNum cfg s.list := schedListNum_update_nonSched
    rw [hsum]
    simp [Call.uncounted, SchedNode.setThread, SchedNode.setGrp, SchedNode.setSlot,
      SchedNode.setList]
  · have hsum := nonSchedListNum_update hl (CountInv.erase_length hmem hhead) k
    have hlist : ((taken.setThread t run).become (.entered t cpuid) []).list =
        Function.update s.list (.nonSched t.1 eventPri) eventList := rfl
    rw [hlist, hsum]
    rcases eq_or_ne k t.1 with rfl | hne
    · simp [Call.counted, SchedNode.setThread, SchedNode.setGrp, SchedNode.setSlot,
        SchedNode.setList]
      omega
    · simp [Call.counted, SchedNode.setThread, SchedNode.setGrp, SchedNode.setSlot,
        SchedNode.setList, hne]

/-- A thread goes to sleep. -/
theorem NodeInv.sleep (h : NodeInv cfg s) (hc : .entered t cpuid ∈ s.calls) (reset : Bool)
    (hreset : reset = true → s.mode t.1 = .nonSchedCpu) :
    NodeInv cfg (if reset = true
      then (s.become (.entered t cpuid) [.sleeping t cpuid]).setStatus t .idle
      else s.become (.entered t cpuid) [.sleeping t cpuid]) := by
  have hsleep := h.thread.sleep hc reset hreset
  split_ifs with hidle
  · refine h.become hc ⟨rfl, rfl, rfl, rfl, rfl, rfl, fun _ hp => hp⟩ (same_setStatus _ t .idle) rfl
      (by simp [CallEvent]) rfl rfl (fun k => rfl) ?_
    rw [view_setStatus]
    rwa [if_pos hidle] at hsleep
  · refine h.become hc ⟨rfl, rfl, rfl, rfl, rfl, rfl, fun _ hp => hp⟩ (fun k => .refl _) rfl
      (by simp [CallEvent]) rfl rfl (fun k => rfl) ?_
    rw [if_neg hidle, Function.update_eq_self] at hsleep
    exact hsleep

theorem same_setWaitFlag (s : SchedNode) (t : ThreadId) (waitFlag : Bool) (k : GrpId) :
    SameThreads (s.grp k) ((s.setWaitFlag t waitFlag).grp k) :=
  same_setThread s t rfl rfl rfl k

theorem NodeInv.quit (h : NodeInv cfg s) (hc : .entered t cpuid ∈ s.calls) :
    NodeInv cfg ((s.become (.entered t cpuid) []).setWaitFlag t false) := by
  refine h.become hc ⟨rfl, rfl, rfl, rfl, rfl, rfl, fun _ hp => hp⟩ (same_setWaitFlag _ t false)
    rfl (by simp) rfl rfl (fun k => rfl) ?_
  rw [view_setWaitFlag]
  exact h.thread.quit hc

theorem locks_of_mutexFree (hfree : s.mutexFree t) {n : Call} (hn : n ∈ s.calls) :
    n.locks t = false := by
  have hlocks := List.all_eq_true.mp hfree n hn
  simpa using hlocks

theorem NodeInv.resume (h : NodeInv cfg s) (hc : .sleeping t cpuid ∈ s.calls)
    (hmode : s.mode t.1 = .nonSchedCpu) (hfree : s.mutexFree t) :
    NodeInv cfg (s.become (.sleeping t cpuid) [.entered t cpuid]) :=
  h.become hc ⟨rfl, rfl, rfl, rfl, rfl, rfl, fun _ hp => hp⟩ (fun k => .refl _) rfl
    (by simp [CallEvent]) rfl rfl (fun k => rfl)
    (h.thread.resume hc hmode fun _ => locks_of_mutexFree hfree)

theorem NodeInv.awake (h : NodeInv cfg s) (hc : .sleeping t cpuid ∈ s.calls)
    (hmode : s.mode t.1 = .schedCpu) :
    NodeInv cfg (s.become (.sleeping t cpuid) [.woken t cpuid]) := by
  obtain ⟨hvalid, -⟩ := h.thread.call _ hc
  exact h.become hc ⟨rfl, rfl, rfl, rfl, rfl, rfl, fun _ hp => hp⟩ (fun k => .refl _) rfl
    (by simp [CallEvent]) rfl rfl (fun k => rfl)
    (h.thread.becomeOne hc ⟨hvalid, hmode⟩ (by simp) (fun u => rfl) (fun c => rfl) fun u => rfl)

theorem NodeInv.waitFail (h : NodeInv cfg s) (hc : .sleeping t cpuid ∈ s.calls)
    (hfree : s.mutexFree t) :
    NodeInv cfg ((s.become (.sleeping t cpuid) []).setWaitFlag t false) := by
  obtain ⟨hvalid, -⟩ := h.thread.call _ hc
  refine h.become hc ⟨rfl, rfl, rfl, rfl, rfl, rfl, fun _ hp => hp⟩ (same_setWaitFlag _ t false)
    rfl (by simp) rfl rfl (fun k => rfl) ?_
  rw [view_setWaitFlag]
  exact h.thread.waitFail hc (h.init_of_valid hvalid) fun _ => locks_of_mutexFree hfree

/-- A wait returns to its cpu, or finds that it has no event any more. -/
theorem NodeInv.waitReturn (h : NodeInv cfg s) (hc : .woken t cpuid ∈ s.calls)
    (hfree : s.mutexFree t)
    (hcpu : s.cur cpuid = some t ∨ (s.slot t = none ∧ s.cur cpuid = none)) :
    NodeInv cfg (schedWaitReturnEvent s t cpuid) := by
  have hlocks : ∀ n ∈ s.view.calls, n.locks t = false := fun _ => locks_of_mutexFree hfree
  dsimp only [schedWaitReturnEvent]
  split
  · next o hslot =>
      have hslot : s.slot t = some o := hslot
      have hcur : s.cur cpuid = some t := by
        refine hcpu.resolve_right fun hnone => ?_
        rw [hslot] at hnone
        cases hnone.1
      have hbind : s.view.bind t = cpuid := (h.thread.cur cpuid t hcur).2.bind
      have hview := view_setThread (s.become (.woken t cpuid) []) t
        ({ · with status := .run, waitFlag := false }) rfl rfl
      refine h.become hc ⟨rfl, rfl, rfl, rfl, rfl, rfl, fun _ hp => hp⟩
        (same_setThread (s.become (.woken t cpuid) []) t rfl rfl rfl) rfl (by simp) rfl rfl
        (fun k => rfl) ?_
      rw [hview]
      exact h.thread.wake hc (by rw [show s.view.slot t = some o from hslot]; simp)
        (by rw [hbind]; exact hcur) hlocks
  · next hslot =>
      have hslot : s.slot t = none := hslot
      have hview := view_setThread (s.become (.woken t cpuid) []) t
        ({ · with status := .idle, waitFlag := false }) rfl rfl
      have hcur : ∀ u ∈ s.view.cur cpuid, u = t := by
        intro u hu
        rcases hcpu with hcur | ⟨-, hnone⟩
        · exact Option.some.inj (hu.symm.trans hcur)
        · cases hnone.symm.trans hu
      have hsame : ∀ k, SameThreads (s.grp k) (((s.become (.woken t cpuid) []).setThread t
          ({ · with status := .idle, waitFlag := false })).grp k) :=
        same_setThread (s.become (.woken t cpuid) []) t rfl rfl rfl
      refine h.become hc ⟨rfl, rfl, rfl, rfl, rfl, rfl, fun _ hp => hp⟩ hsame rfl (by simp) rfl
        rfl (fun k => rfl) ?_
      have hset : (((s.become (.woken t cpuid) []).setThread t
          ({ · with status := .idle, waitFlag := false })).setCur cpuid none).view =
            { ((s.become (.woken t cpuid) []).setThread t
              ({ · with status := .idle, waitFlag := false })).view with
                cur := Function.update s.cur cpuid none } := rfl
      rw [hset, hview]
      exact h.thread.wakeStop hc hslot hcur hlocks

end OpiaiKernel.Esched
