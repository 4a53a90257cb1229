import OpiaiKernel.Esched.NodePublish

/-!
# The invariant over a search

A search takes an event out of a list, puts it into the slot of its thread and
gives the cpu to the thread, or finds no event.
-/

namespace OpiaiKernel.Esched

variable {cfg : NodeCfg} {s s' : SchedNode} {k : GrpId} {t : ThreadId} {o cpuid : ℕ} {c : Call}
  {owner : Option ThreadId}

/-! ## Threads and lists -/

theorem same_setThread (s : SchedNode) (t : ThreadId) {f : SchedThreadCtx → SchedThreadCtx}
    (hvalid : (f (s.thread t)).valid = (s.thread t).valid)
    (hbind : (f (s.thread t)).bindCpuid = (s.thread t).bindCpuid)
    (hbitmap : (f (s.thread t)).subscribeEventBitmap = (s.thread t).subscribeEventBitmap)
    (k : GrpId) : SameThreads (s.grp k) ((s.setThread t f).grp k) := by
  rcases eq_or_ne k t.1 with rfl | hne
  · rw [SchedNode.setThread, SchedNode.setGrp]
    simp only [Function.update_self]
    exact setThreadCtx_same hvalid hbind hbitmap
  · rw [SchedNode.setThread, SchedNode.setGrp]
    simp only [Function.update_of_ne hne]
    exact .refl _

theorem same_setStatus (s : SchedNode) (t : ThreadId) (status : ThreadStatus) (k : GrpId) :
    SameThreads (s.grp k) ((s.setStatus t status).grp k) :=
  same_setThread s t rfl rfl rfl k

/-- The search takes one event and leaves the others in their order. -/
theorem eventSearch_erase {σ : Type*} {canHandle : σ → ℕ → Bool × σ} {st st' : σ}
    {eventList eventList' : SchedEventList ℕ} (hnodup : eventList.head.Nodup)
    (h : schedEventSearch canHandle st eventList = (some o, eventList', st')) :
    o ∈ eventList.head ∧ eventList'.head = eventList.head.erase o ∧
      eventList'.curNum = eventList.curNum - 1 ∧ ∃ st₀, canHandle st₀ o = (true, st') := by
  unfold schedEventSearch at h
  split at h
  · cases h
  · next found head st₁ hsearch =>
      simp only [Prod.mk.injEq, Option.some.injEq] at h
      obtain ⟨rfl, rfl, rfl⟩ := h
      obtain ⟨⟨l, r, hl, hr⟩, hlast⟩ := schedSearch_some hsearch
      rw [hl] at hnodup
      have hnot : found ∉ l := fun hmem =>
        (List.nodup_append.mp hnodup).2.2 found hmem found List.mem_cons_self rfl
      refine ⟨by simp [hl], ?_, rfl, hlast⟩
      rw [hl, hr, List.erase_append_right _ hnot, List.erase_cons_head]

theorem takeFirst_erase {isMatch : ℕ → Bool} {eventList eventList' : SchedEventList ℕ}
    (h : schedTakeFirst isMatch eventList = some (o, eventList')) :
    o ∈ eventList.head ∧ eventList'.head = eventList.head.erase o ∧
      eventList'.curNum = eventList.curNum - 1 ∧ isMatch o = true := by
  obtain ⟨a, hfind, heq⟩ := Option.map_eq_some_iff.mp h
  obtain ⟨rfl, rfl⟩ := Prod.mk.inj heq
  refine ⟨List.mem_of_find?_eq_some hfind, ?_, rfl, List.find?_some hfind⟩
  obtain ⟨hmatch, l, r, hl, hbefore⟩ := List.find?_eq_some_iff_append.mp hfind
  have hnone : ∀ b ∈ l, ¬ isMatch b = true := fun b hb => by simpa using hbefore b hb
  have hnot : a ∉ l := fun hmem => hnone a hmem hmatch
  rw [hl, List.erase_append_right _ hnot, List.erase_cons_head,
    List.eraseP_append_right _ hnone, List.eraseP_cons_of_pos hmatch]

/-- An event is taken out of a list. -/
theorem CountInv.erase_length {l : ListId} {eventList : SchedEventList ℕ}
    (ho : o ∈ (s.list l).head) (hhead : eventList.head = (s.list l).head.erase o) :
    (eventList.head.length : ℤ) = (s.list l).head.length + -1 := by
  have hpos := List.length_pos_of_mem ho
  rw [hhead, List.length_erase_of_mem ho]
  omega

/-- Only lists in range have events. -/
theorem CountInv.inRange_of_mem (h : CountInv cfg s) {l : ListId} (ho : o ∈ (s.list l).head) :
    l.InRange cfg := by
  by_contra hl
  rw [h.inRange l hl] at ho
  cases ho

/-! ## The search -/

theorem NodeInv.select (h : NodeInv cfg s) (hcpu : cpuid ∈ cfg.cpus) (hcur : s.cur cpuid = none)
    (hfree : s.calls.all (fun c => !c.selects cpuid) = true) :
    NodeInv cfg { s with calls := .search cpuid none :: s.calls } := by
  refine h.start ⟨rfl, rfl, rfl, rfl, rfl, rfl, fun _ hp => hp⟩ (fun k => .refl _) rfl trivial rfl
    rfl (fun k => rfl) (h.thread.startSearch hcpu hcur fun n hn => ?_)
  simpa using List.all_eq_true.mp hfree n hn

/-- The cpu has a thread for an event that it can handle. -/
theorem NodeInv.bound_of_canHandle (h : NodeInv cfg s) {procPri eventPri curTime : ℕ}
    {st st' : GrpId → RunStatus} (ho : o ∈ (s.list (.sched procPri eventPri)).head)
    (hcan : nodeCanHandle s cpuid curTime st o = (true, st')) :
    s.gone (s.obj o).pid = true ∨ ∃ t : ThreadId, t.1 = (s.obj o).grpId ∧ Bound s.view cpuid t := by
  rcases h.event.list _ o ho with hgone | ⟨hnamed, hmode⟩
  · exact Or.inl hgone
  by_cases hgone : s.gone (s.obj o).pid = true
  · exact Or.inl hgone
  right
  dsimp only [nodeCanHandle] at hcan
  rw [if_neg hgone] at hcan
  have hhandle : schedIsCpuHandleEvent (s.grp (s.obj o).grpId) true (s.obj o) cpuid curTime =
      true := by
    have hfst := congrArg Prod.fst hcan
    dsimp only [schedIsEventCanHandle] at hfst
    split_ifs at hfst with hex hrun hcpu
    · exact hfst
    · exact hcpu
  unfold schedIsCpuHandleEvent at hhandle
  split at hhandle
  · cases hhandle
  · next tid hfind =>
      have hmem := List.mem_of_find?_eq_some hfind
      have hbind := List.find?_some hfind
      have hreg : registered (s.grp (s.obj o).grpId) tid = true := by
        unfold schedGetEventThreadMap at hmem
        cases hmap : (s.obj o).eventThreadMap with
        | none =>
            rw [hmap, Option.getD_none] at hmem
            exact (((h.group _).map_iff _ _).mp hmem).1
        | some map =>
            rw [hmap, Option.getD_some] at hmem
            exact hnamed.registered map hmap tid hmem
      exact ⟨((s.obj o).grpId, tid), rfl, hmode, hreg, of_decide_eq_true hbind⟩

theorem NodeInv.searchList (h : NodeInv cfg s) {procPri eventPri curTime : ℕ}
    (hc : .search cpuid owner ∈ s.calls) :
    NodeInv cfg (schedSearchList s cpuid owner procPri eventPri curTime) := by
  unfold schedSearchList
  split
  · exact h.threads ⟨rfl, rfl, rfl, rfl, rfl, rfl, fun _ hp => hp⟩ (fun k => .refl _) rfl h.thread
  · next o eventList runStatus hsearch =>
      obtain ⟨hmem, hhead, hnum, st, hcan⟩ :=
        eventSearch_erase (h.custody.head_nodup (.sched procPri eventPri)) hsearch
      have hl := h.count.inRange_of_mem hmem
      refine h.step (fun k => .refl _) (fun _ hp => hp) (fun o => ⟨rfl, fun _ hm => hm⟩)
        (fun n hn => ?_) (fun l o' ho' => Or.inl ?_) (fun t o' ho' => Or.inl ho') ?_
        ((h.custody_rest hc rfl).take hmem hhead hnum)
        (h.count.move hc rfl rfl (inRange_setList h.count hl) ?_ fun k => ?_)
      · rcases List.mem_append.mp hn with hn | hn
        · obtain rfl := List.mem_singleton.mp hn
          have hev : CallEvent s (.took cpuid owner o) := h.bound_of_canHandle hmem hcan
          exact Or.inr (hev.later (.of_grp rfl rfl) fun _ _ => ⟨rfl, fun _ hm => hm⟩)
        · exact Or.inl (List.mem_of_mem_erase hn)
      · rcases eq_or_ne l (.sched procPri eventPri) with rfl | hne
        · have hold : o' ∈ eventList.head := by simpa [SchedNode.setList] using ho'
          rw [hhead] at hold
          exact List.mem_of_mem_erase hold
        · simpa [SchedNode.setList, Function.update_of_ne hne] using ho'
      · have hok : CallOk cfg s.view (.took cpuid owner o) := h.thread.call (.search cpuid owner) hc
        exact h.thread.becomeOne hc hok (by simp) (fun u => rfl) (fun c => rfl) fun u => rfl
      · have hsum := schedListNum_update hl (CountInv.erase_length hmem hhead)
        simp only [SchedNode.become_list, SchedNode.setList, hsum]
        simp [Call.uncounted]
        omega
      · simp only [SchedNode.become_list, SchedNode.setList, nonSchedListNum_update_sched]
        simp [Call.counted]

/-- The thread of the cpu in the group of the event. -/
theorem NodeInv.tid_of_bound (h : NodeInv cfg s) (hb : Bound s.view cpuid t) :
    (t.1, (s.grp t.1).cpuidToTid cpuid) = t := by
  have heq := ((h.group t.1).bound_iff hb.mode cpuid t.2 hb.valid).mpr hb.bind
  exact Prod.ext rfl heq

theorem NodeInv.exclusiveFinish (h : NodeInv cfg s) (k : GrpId) :
    NodeInv cfg (schedExclusiveGrpFinish s k) := by
  unfold schedExclusiveGrpFinish
  split_ifs
  · exact h.threads ⟨rfl, rfl, rfl, rfl, rfl, rfl, fun _ hp => hp⟩ (fun k => .refl _) rfl h.thread
  · exact h

/-- Only the counter and the queue of the event change when the slot is empty. -/
theorem free_of_empty (cfg : NodeCfg) (o : ℕ) (hempty : s.slot t = none) :
    ∃ eventNum, schedFreeThreadEvent cfg s t o = schedEventEnqueLock cfg { s with eventNum } o := by
  have hself : Function.update s.slot t none = s.slot := hempty ▸ Function.update_eq_self t s.slot
  refine ⟨Function.update s.eventNum t.1 (Function.update (s.eventNum t.1) (s.obj o).eventId
    (s.eventNum t.1 (s.obj o).eventId - 1)), ?_⟩
  dsimp only [schedFreeThreadEvent, SchedNode.setSlot]
  rw [hself]

theorem NodeInv.hand (h : NodeInv cfg s) (hc : .took cpuid owner o ∈ s.calls) :
    NodeInv cfg (schedHandEvent cfg s cpuid owner o) := by
  have hsearch : ThreadInv cfg
      (s.become (.took cpuid owner o) [.search cpuid owner]).view := by
    have hok : CallOk cfg s.view (.search cpuid owner) := h.thread.call (.took cpuid owner o) hc
    exact h.thread.becomeOne hc hok (by simp) (fun u => rfl) (fun c => rfl) fun u => rfl
  dsimp only [schedHandEvent]
  split_ifs with hgone htimeout
  · exact h.enque hc rfl (by simp [CallEvent]) rfl rfl (fun k => rfl) hsearch
  all_goals
    obtain ⟨t, ht, hb⟩ := (h.event.call _ hc).resolve_left hgone
    rw [← ht, h.tid_of_bound hb]
    have hempty := h.thread.slot_empty hc hb
  · refine NodeInv.exclusiveFinish ?_ _
    obtain ⟨eventNum, hfree⟩ := free_of_empty cfg o hempty
    have hnum : NodeInv cfg { s with eventNum } :=
      h.threads ⟨rfl, rfl, rfl, rfl, rfl, rfl, fun _ hp => hp⟩ (fun k => .refl _) rfl h.thread
    rw [hfree]
    exact hnum.enque hc rfl (by simp [CallEvent]) rfl rfl (fun k => rfl) hsearch
  · refine h.step (fun k => .refl _) (fun _ hp => hp) (fun o => ⟨rfl, fun _ hm => hm⟩)
      (fun n hn => ?_) (fun l o' ho' => Or.inl ho') (fun u o' ho' => ?_)
      (h.thread.handFound hc hb) ((h.custody_hand hc rfl).putSlot hempty)
      (h.count.move hc rfl rfl h.count.inRange rfl fun k => rfl)
    · rcases List.mem_append.mp hn with hn | hn
      · obtain rfl := List.mem_singleton.mp hn
        exact Or.inr trivial
      · exact Or.inl (List.mem_of_mem_erase hn)
    · rcases eq_or_ne u t with rfl | hne
      · have heq : some o = some o' := by simpa [SchedNode.setSlot] using ho'
        exact Or.inr (Option.some.inj heq ▸ ht.symm)
      · left
        simpa [SchedNode.setSlot, Function.update_of_ne hne] using ho'

/-! ## The end of a search -/

/-- The view when a thread is woken. -/
theorem view_wakeUp (hidle : (s.thread t).status = .idle) :
    (schedWakeUpThread s t).view =
      { s.view with status := Function.update s.view.status t .ready } := by
  rw [schedWakeUpThread, if_pos hidle, view_setStatus]

theorem same_wakeUp (s : SchedNode) (t : ThreadId) (k : GrpId) :
    SameThreads (s.grp k) ((schedWakeUpThread s t).grp k) := by
  unfold schedWakeUpThread
  split_ifs
  · exact same_setStatus s t .ready k
  · exact .refl _

theorem stays_wakeUp (s : SchedNode) (t : ThreadId) : Stays s (schedWakeUpThread s t) := by
  unfold schedWakeUpThread
  split_ifs <;> exact ⟨rfl, rfl, rfl, rfl, rfl, rfl, fun _ hp => hp⟩

theorem calls_wakeUp (s : SchedNode) (t : ThreadId) : (schedWakeUpThread s t).calls = s.calls := by
  unfold schedWakeUpThread
  split_ifs <;> rfl

/-- The thread that a cpu has picked and given itself to is woken. -/
theorem NodeInv.wakeUp (h : NodeInv cfg s) (hb : Bound s.view cpuid t)
    (hcur : s.cur cpuid = some t) (hidle : (s.thread t).status = .idle) :
    NodeInv cfg (schedWakeUpThread s t) := by
  refine h.threads (stays_wakeUp _ _) (same_wakeUp _ _) (calls_wakeUp _ _) ?_
  rw [view_wakeUp hidle]
  exact h.thread.setReady hb.valid hidle fun _ => hb.bind ▸ hcur

/-- The thread that searches goes to sleep, and the search is over. -/
theorem NodeInv.endSearch (h : NodeInv cfg s) {u : ThreadId} (hc : c ∈ s.calls)
    (hhands : c.hands = []) (huncounted : c.uncounted = false) (hcounted : ∀ k, c.counted k = false)
    (status : ThreadStatus) (cur : ℕ → Option ThreadId)
    (hthread : ThreadInv cfg { s.view with
      status := Function.update s.view.status u status
      cur
      calls := [.sleeping u cpuid] ++ s.calls.erase c }) :
    NodeInv cfg { (s.become c [.sleeping u cpuid]).setStatus u status with cur } := by
  refine h.become hc ⟨rfl, rfl, rfl, rfl, rfl, rfl, fun _ hp => hp⟩
    (same_setStatus (s.become c [.sleeping u cpuid]) u status) rfl (by simp [CallEvent]) ?_ ?_
    (fun k => ?_) ?_
  · rw [hhands]
    rfl
  · rw [huncounted]
    rfl
  · rw [hcounted]
    rfl
  · have hview : { (s.become c [.sleeping u cpuid]).setStatus u status with cur }.view =
        { ((s.become c [.sleeping u cpuid]).setStatus u status).view with cur } := rfl
    rw [hview, view_setStatus]
    exact hthread

theorem NodeInv.wakeupNext (h : NodeInv cfg s) (hc : .found cpuid owner t ∈ s.calls) :
    NodeInv cfg (schedWakeupNextThread s cpuid owner t) := by
  obtain ⟨-, howner, hslot, hb⟩ := h.thread.call _ hc
  cases owner with
  | none =>
      obtain ⟨hidle, htake⟩ := h.thread.takeCpu hc
      have hcpu : NodeInv cfg ((s.setCur cpuid (some t)).become (.found cpuid none t) []) :=
        h.become hc ⟨rfl, rfl, rfl, rfl, rfl, rfl, fun _ hp => hp⟩ (fun k => .refl _) rfl (by simp)
          rfl rfl (fun k => rfl) htake
      exact hcpu.wakeUp ⟨hb.mode, hb.valid, hb.bind⟩ (Function.update_self _ _ _) hidle
  | some cur =>
      dsimp only [schedWakeupNextThread]
      split_ifs with heq
      · subst heq
        exact h.endSearch hc rfl rfl (fun k => rfl) .ready s.cur (h.thread.selfReady hc)
      · have hnone : s.slot cur = none := hslot cur rfl (Ne.symm heq)
        have hleave := h.thread.leaveCpu hc (u := cur) (x := some t)
          (by simp [Call.locks]) (by simp [Call.selects]) howner hnone
          (fun w hw => Option.mem_some_iff.mp hw ▸ hb) (fun c' ow w heq => by
            cases heq
            exact ⟨rfl, rfl⟩) fun w => rfl
        have hcpu := h.endSearch hc rfl rfl (fun k => rfl) .idle
          (Function.update s.cur cpuid (some t)) hleave
        have hidle : (s.thread t).status = .idle := by
          by_contra hstatus
          have hcur := h.thread.active t hb.mode hstatus
          rw [hb.bind, howner] at hcur
          exact heq (Option.some.inj hcur).symm
        let left := s.become (.found cpuid (some cur) t) [.sleeping cur cpuid]
        refine hcpu.wakeUp (hb.later (.of_same (same_setStatus left cur .idle) fun _ hp => hp))
          (Function.update_self _ _ _) ?_
        exact (congrArg SchedThreadCtx.status
          (thread_setThread_of_ne left cur ({ · with status := .idle }) heq)).trans hidle

/-- The search ends, and the cpu of the thread that searched gets idle. -/
theorem NodeInv.toIdle (h : NodeInv cfg s) (hc : .search cpuid owner ∈ s.calls) :
    NodeInv cfg (schedCpuToIdle s cpuid owner) := by
  obtain ⟨-, howner, hslot⟩ := h.thread.call _ hc
  cases owner with
  | none =>
      exact h.become hc ⟨rfl, rfl, rfl, rfl, rfl, rfl, fun _ hp => hp⟩ (fun k => .refl _) rfl
        (by simp) rfl rfl (fun k => rfl) (h.thread.finishCall hc (by simp))
  | some cur =>
      have hleave := h.thread.leaveCpu hc (u := cur) (x := none)
        (by simp [Call.locks]) (by simp [Call.selects]) howner (hslot cur rfl)
        (fun w hw => nomatch hw) (fun c' ow w heq => nomatch heq) fun w => rfl
      exact h.endSearch hc rfl rfl (fun k => rfl) .idle (Function.update s.cur cpuid none) hleave

/-- A thread without a cpu is woken. -/
theorem NodeInv.wakeup (h : NodeInv cfg s) (hmode : s.mode t.1 = .nonSchedCpu)
    (hvalid : (s.thread t).valid = true) : NodeInv cfg (schedWakeupNonSchedGrp s t) := by
  unfold schedWakeupNonSchedGrp
  split_ifs with hidle
  · refine h.threads ⟨rfl, rfl, rfl, rfl, rfl, rfl, fun _ hp => hp⟩ (same_setStatus s t .ready) rfl ?_
    rw [view_setStatus]
    refine h.thread.setReady hvalid hidle fun hs => ?_
    rw [show s.view.mode t.1 = .nonSchedCpu from hmode] at hs
    cases hs
  · exact h

end OpiaiKernel.Esched
