import OpiaiKernel.Dms.Distribution

/-!
# What the readers of events get

Every reachable state agrees with the mailboxes that the readers expect: what an
entry queues is what waits in its mailbox, what the mailbox got is the run of the
events since the entry was opened, and what was read from the entry is what was
taken from the mailbox.  The entries belong to different processes; whether a
thread reads from the entry of its own process depends on when processes are
released.
-/

namespace OpiaiKernel.Dms

/-! ## One entry -/

/-- A working entry agrees with the account of its process, which got `segment`. -/
structure Serves (proc : DmsEventProcess) (a : Account) (segment : List DmsEventPara) : Prop where
  owned : proc.processPid ≠ DMS_INVALID_PID
  size : proc.eventFifo.size = roundupPowOfTwo DMS_EXCEPTION_KFIFO_SIZE
  queue : proc.eventFifo.events = a.mailbox.waiting
  messages : a.mailbox.messages = segment
  taken : a.mailbox.taken = a.reads

/-- An entry when the devices in `clears` were cleared. -/
structure EntryOk (proc : DmsEventProcess) (a : Account) (segment : List DmsEventPara)
    (clears : List UInt32) : Prop where
  count : proc.exceptionNum = proc.eventFifo.events.length
  idle : proc.processStatus = .idle →
    proc.eventFifo.events = [] ∧ proc.processPid = DMS_INVALID_PID
  work : proc.processStatus = .work → Serves proc a segment
  cleared : ∀ event, (event, .cleared) ∈ a.mailbox.trail →
    ∃ devid ∈ clears, devid.toUInt16 = event.deviceid

variable {proc : DmsEventProcess} {a : Account} {segment : List DmsEventPara}
  {clears : List UInt32} {event : DmsEventPara}

/-- Nothing is said about what an idle entry got. -/
theorem EntryOk.congr_idle (h : EntryOk proc a segment clears)
    (hidle : proc.processStatus ≠ .work) (segment' : List DmsEventPara) :
    EntryOk proc a segment' clears :=
  { h with work := fun hw => absurd hw hidle }

theorem EntryOk.init : EntryOk .init ⟨0, [], .new⟩ segment clears where
  count := rfl
  idle _ := ⟨rfl, rfl⟩
  work h := nomatch h
  cleared _ h := nomatch h

/-- A working entry whose queue becomes what waits in a mailbox. -/
theorem EntryOk.queued (h : EntryOk proc a segment clears) (hw : proc.processStatus = .work)
    (a' : Account) {segment' : List DmsEventPara} {clears' : List UInt32}
    (hmessages : a'.mailbox.messages = segment') (htaken : a'.mailbox.taken = a'.reads)
    (hcleared : ∀ event, (event, .cleared) ∈ a'.mailbox.trail →
      ∃ devid ∈ clears', devid.toUInt16 = event.deviceid) :
    EntryOk (proc.count { proc.eventFifo with events := a'.mailbox.waiting }) a' segment'
      clears' where
  count := len_div _
  idle hidle := by cases hw.symm.trans hidle
  work _ := ⟨(h.work hw).owned, (h.work hw).size, rfl, hmessages, htaken⟩
  cleared := hcleared

theorem EntryOk.arrive (h : EntryOk proc a segment clears) (hw : proc.processStatus = .work) :
    EntryOk (dmsEventAddToProcessList proc event)
      { a with mailbox := a.mailbox.arrive event fifoRoom_pos } (segment ++ [event]) clears := by
  have hs := h.work hw
  have hfifo : FifoOk proc.eventFifo := ⟨hs.size, by rw [hs.queue]; exact a.mailbox.bounded⟩
  have hqueue : makeRoom proc.eventFifo.size proc.eventFifo.events ++ [event] =
      (a.mailbox.arrive event fifoRoom_pos).waiting := by
    rw [makeRoom_eq hfifo, Mailbox.waiting_arrive, hs.queue]
  have hadd : dmsEventAddToProcessList proc event = proc.count { proc.eventFifo with
      events := (a.mailbox.arrive event fifoRoom_pos).waiting } := by
    rw [dmsEventAddToProcessList, if_neg (by simp [hw]), ← hqueue]
    rfl
  rw [hadd]
  exact h.queued hw { a with mailbox := a.mailbox.arrive event fifoRoom_pos }
    (by simp [hs.messages]) (by simp [hs.taken])
    fun e he => h.cleared e (a.mailbox.cleared_arrive fifoRoom_pos he)

theorem dmsEventAddToProcessList_idle (hidle : proc.processStatus ≠ .work) :
    dmsEventAddToProcessList proc event = proc := if_pos hidle

/-- Only a working entry has something to read. -/
theorem EntryOk.get_some (h : EntryOk proc a segment clears)
    (hget : (dmsEventGetExceptionByProcessIndex proc).1 = some event) :
    EntryOk (dmsEventGetExceptionByProcessIndex proc).2
      { a with reads := a.reads ++ [event], mailbox := a.mailbox.take } segment clears := by
  by_cases hempty : proc.eventFifo.len < DMS_EXCEPTION_KFIFO_CELL
  · simp [dmsEventGetExceptionByProcessIndex, hempty] at hget
  · simp only [dmsEventGetExceptionByProcessIndex, if_neg hempty] at hget ⊢
    have hw : proc.processStatus = .work := by
      cases hs : proc.processStatus with
      | work => rfl
      | idle => rw [(h.idle hs).1] at hget; cases hget
    have hs := h.work hw
    have hqueue : proc.eventFifo.events.tail = a.mailbox.take.waiting := by
      rw [Mailbox.waiting_take, hs.queue]
    rw [hs.queue] at hget
    rw [hqueue]
    exact h.queued hw { a with reads := _, mailbox := a.mailbox.take } (by simp [hs.messages])
      (by simp [Mailbox.taken_take, hget, hs.taken])
      fun e he => h.cleared e (a.mailbox.cleared_take he)

theorem EntryOk.get_none (h : EntryOk proc a segment clears)
    (hget : (dmsEventGetExceptionByProcessIndex proc).1 = none) :
    (dmsEventGetExceptionByProcessIndex proc).2 = proc := by
  by_cases hempty : proc.eventFifo.len < DMS_EXCEPTION_KFIFO_CELL
  · simp only [dmsEventGetExceptionByProcessIndex, if_pos hempty, DmsEventProcess.count, len_div]
    rw [← h.count]
  · simp only [dmsEventGetExceptionByProcessIndex, if_neg hempty, List.head?_eq_none_iff] at hget
    exact absurd ((eventsLt_iff _).mpr hget) hempty

theorem EntryOk.clear (h : EntryOk proc a segment clears) {devid : UInt32}
    (hw : proc.processStatus = .work) :
    EntryOk (dmsEventClearExceptionByProcessIndex proc devid true)
      { a with mailbox := a.mailbox.clear fun event => event.deviceid = devid.toUInt16 } segment
      (clears ++ [devid]) := by
  have hs := h.work hw
  have hclear : dmsEventClearExceptionByProcessIndex proc devid true =
      proc.count { proc.eventFifo with
        events := (a.mailbox.clear fun event => event.deviceid = devid.toUInt16).waiting } := by
    rw [dmsEventClearExceptionByProcessIndex, if_neg (by simp [hw]), Mailbox.waiting_cleared,
      ← hs.queue]
    split
    · rename_i hempty
      obtain ⟨⟨size, events⟩, num, pid, tid, status⟩ := proc
      have hcount := h.count
      simp only at hempty hcount ⊢
      rw [hempty, List.filter_nil, DmsEventProcess.count, len_div, hcount, hempty]
    · simp only [Bool.true_eq_false, if_false, foldl_put, events_keepOthers]
      rfl
  rw [hclear]
  refine h.queued hw
    { a with mailbox := a.mailbox.clear fun event => event.deviceid = devid.toUInt16 }
    (by simp [hs.messages]) (by simp [hs.taken]) fun e he => ?_
  rcases a.mailbox.cleared_clear he with he | he
  · obtain ⟨d, hd, heq⟩ := h.cleared e he
    exact ⟨d, List.mem_append_left _ hd, heq⟩
  · exact ⟨devid, by simp, (of_decide_eq_true he).symm⟩

/-- Without memory for a second queue nothing is cleared, and of an idle entry neither. -/
theorem dmsEventClearExceptionByProcessIndex_keeps {devid : UInt32} {alloc : Bool}
    (h : ¬(proc.processStatus = .work ∧ alloc)) :
    dmsEventClearExceptionByProcessIndex proc devid alloc = proc := by
  rw [dmsEventClearExceptionByProcessIndex]
  split
  · rfl
  · rename_i hw
    split
    · rfl
    · rw [if_pos (by simpa using fun ha => h ⟨by simpa using hw, ha⟩)]

theorem EntryOk.opened {pid tid since : ℕ} :
    EntryOk (.opened pid tid) ⟨since, [], .new⟩ [] clears where
  count := rfl
  idle h := nomatch h
  work _ := ⟨Int.ne_of_gt (by change (-1 : ℤ) < pid; omega), rfl, rfl, rfl, rfl⟩
  cleared _ h := nomatch h

theorem EntryOk.released (h : EntryOk proc a segment clears) :
    EntryOk (dmsEventReleaseOneProcess proc) a segment clears where
  count := rfl
  idle _ := ⟨rfl, rfl⟩
  work h := nomatch h
  cleared := h.cleared

/-- The entry still belongs to the same process. -/
def SameOwner (proc proc' : DmsEventProcess) : Prop :=
  proc'.processPid = proc.processPid ∧ proc'.processStatus = proc.processStatus

theorem dmsEventAddToProcessList_sameOwner (proc : DmsEventProcess) (event : DmsEventPara) :
    SameOwner proc (dmsEventAddToProcessList proc event) := by
  rw [dmsEventAddToProcessList]
  split <;> exact ⟨rfl, rfl⟩

theorem dmsEventGetExceptionByProcessIndex_sameOwner (proc : DmsEventProcess) :
    SameOwner proc (dmsEventGetExceptionByProcessIndex proc).2 := by
  simp only [dmsEventGetExceptionByProcessIndex]
  split <;> exact ⟨rfl, rfl⟩

theorem dmsEventClearExceptionByProcessIndex_sameOwner (proc : DmsEventProcess) (devid : UInt32)
    (alloc : Bool) : SameOwner proc (dmsEventClearExceptionByProcessIndex proc devid alloc) := by
  rw [dmsEventClearExceptionByProcessIndex]
  split
  · exact ⟨rfl, rfl⟩
  · split
    · exact ⟨rfl, rfl⟩
    · split <;> exact ⟨rfl, rfl⟩

/-! ## Opening an entry -/

section GetIndex

variable {process process' : ℕ → DmsEventProcess} {pid tid : ℤ} {original alloc : Bool} {i : ℕ}

/-- Either nothing changes, and the index is that of an entry of the process or
none, or an idle entry is opened for a process that had none. -/
theorem dmsEventGetProcessIndex_cases
    (h : dmsEventGetProcessIndex process pid tid original alloc = (i, process')) :
    (process' = process ∧ (DMS_EVENT_EXCEPTION_PROCESS_MAX ≤ i ∨
      i < DMS_EVENT_EXCEPTION_PROCESS_MAX ∧ (process i).processPid = pid)) ∨
    (i < DMS_EVENT_EXCEPTION_PROCESS_MAX ∧ (process i).processStatus = .idle ∧
      (∀ j < DMS_EVENT_EXCEPTION_PROCESS_MAX, (process j).processPid ≠ pid) ∧
      process' = Function.update process i (.opened pid tid)) := by
  rw [dmsEventGetProcessIndex] at h
  cases hfind : (List.range DMS_EVENT_EXCEPTION_PROCESS_MAX).find? fun i =>
      (process i).processPid = pid with
  | some j =>
      simp only [hfind] at h
      have hj := List.mem_range.mp (List.mem_of_find?_eq_some hfind)
      have hpid : (process j).processPid = pid := by simpa using List.find?_some hfind
      left
      split at h
      · obtain ⟨rfl, rfl⟩ := Prod.mk.inj h
        exact ⟨rfl, .inl (Nat.le_refl _)⟩
      · obtain ⟨rfl, rfl⟩ := Prod.mk.inj h
        exact ⟨rfl, .inr ⟨hj, hpid⟩⟩
  | none =>
      simp only [hfind] at h
      have hfree : ∀ j < DMS_EVENT_EXCEPTION_PROCESS_MAX, (process j).processPid ≠ pid := by
        simpa using hfind
      cases hidle : (List.range DMS_EVENT_EXCEPTION_PROCESS_MAX).find? fun i =>
          (process i).processStatus = .idle with
      | none =>
          simp only [hidle] at h
          obtain ⟨rfl, rfl⟩ := Prod.mk.inj h
          exact .inl ⟨rfl, .inl (Nat.le_refl _)⟩
      | some j =>
          simp only [hidle] at h
          split at h
          · obtain ⟨rfl, rfl⟩ := Prod.mk.inj h
            exact .inl ⟨rfl, .inl (Nat.le_refl _)⟩
          · obtain ⟨rfl, rfl⟩ := Prod.mk.inj h
            exact .inr ⟨List.mem_range.mp (List.mem_of_find?_eq_some hidle),
              by simpa using List.find?_some hidle, hfree, rfl⟩

end GetIndex

theorem dmsEventReleaseProc_cases (process : ℕ → DmsEventProcess) (pid : ℤ) :
    dmsEventReleaseProc process pid = process ∨
    ∃ i, (process i).processPid = pid ∧ dmsEventReleaseProc process pid =
      Function.update process i (dmsEventReleaseOneProcess (process i)) := by
  rw [dmsEventReleaseProc]
  cases hfind : (List.range DMS_EVENT_EXCEPTION_PROCESS_MAX).find? fun i =>
      (process i).processPid = pid with
  | none => exact .inl rfl
  | some i => exact .inr ⟨i, by simpa using List.find?_some hfind, rfl⟩

/-! ## All entries -/

/-- What holds in every reachable state. -/
structure ObservedOk (o : Observed) : Prop where
  entry : ∀ i, EntryOk (o.sys.process i) (o.account i) (o.segment i) o.clears
  since : ∀ i, (o.account i).since ≤ o.passed i
  outside : ∀ i, DMS_EVENT_EXCEPTION_PROCESS_MAX ≤ i → (o.sys.process i).processStatus = .idle
  pids : ∀ i j, (o.sys.process i).processPid = (o.sys.process j).processPid →
    (o.sys.process i).processPid ≠ DMS_INVALID_PID → i = j
  sending : ∀ sending, o.sys.sending = some sending →
    sending.index < DMS_EVENT_EXCEPTION_PROCESS_MAX ∧
      ∃ before, o.published = before ++ [sending.exception]

theorem ObservedOk.start : ObservedOk Observed.start where
  entry _ := EntryOk.init
  since _ := Nat.le_refl _
  outside _ _ := rfl
  pids _ _ _ h := absurd rfl h
  sending _ h := nomatch h

variable {o o' : Observed} {act : DistributionAct} {sending : Sending} {i : ℕ}
  {proc' : DmsEventProcess} {a' : Account}

/-- A step that changes one entry. -/
theorem ObservedOk.change (hs : ObservedOk o)
    (hprocess : o'.sys.process = Function.update o.sys.process i proc')
    (haccount : o'.account = Function.update o.account i a') (hclears : o.clears ⊆ o'.clears)
    (hsegment : ∀ j ≠ i, (o.sys.process j).processStatus = .work → o'.segment j = o.segment j)
    (hentry : EntryOk proc' a' (o'.segment i) o'.clears)
    (hsince : ∀ j, (o'.account j).since ≤ o'.passed j)
    (hinside : proc'.processStatus = .work → i < DMS_EVENT_EXCEPTION_PROCESS_MAX)
    (hpid : ∀ j ≠ i, (o.sys.process j).processPid = proc'.processPid →
      proc'.processPid = DMS_INVALID_PID)
    (hsending : ∀ sending, o'.sys.sending = some sending →
      sending.index < DMS_EVENT_EXCEPTION_PROCESS_MAX ∧
        ∃ before, o'.published = before ++ [sending.exception]) : ObservedOk o' := by
  refine ⟨fun j => ?_, hsince, fun j hj => ?_, fun j k hjk hj => ?_, hsending⟩
  · rw [hprocess, haccount]
    by_cases hji : j = i
    · rw [hji, Function.update_self, Function.update_self]
      exact hentry
    · rw [Function.update_of_ne hji, Function.update_of_ne hji]
      have hold := hs.entry j
      refine ⟨hold.count, hold.idle, fun hw => hsegment j hji hw ▸ hold.work hw, fun e he => ?_⟩
      obtain ⟨d, hd, heq⟩ := hold.cleared e he
      exact ⟨d, hclears hd, heq⟩
  · rw [hprocess]
    by_cases hji : j = i
    · rw [hji, Function.update_self]
      cases hstatus : proc'.processStatus with
      | idle => rfl
      | work => exact absurd (hinside hstatus) (by omega)
    · rw [Function.update_of_ne hji]
      exact hs.outside j hj
  · rw [hprocess] at hjk hj
    by_cases hji : j = i <;> by_cases hki : k = i
    · rw [hji, hki]
    · rw [hji, Function.update_self, Function.update_of_ne hki] at hjk
      rw [hji, Function.update_self] at hj
      exact absurd (hpid k hki hjk.symm) hj
    · rw [hki, Function.update_self, Function.update_of_ne hji] at hjk
      rw [Function.update_of_ne hji, hjk] at hj
      exact absurd (hpid j hji hjk) hj
    · rw [Function.update_of_ne hji, Function.update_of_ne hki] at hjk
      rw [Function.update_of_ne hji] at hj
      exact hs.pids j k hjk hj

/-- The entry is left to its process. -/
theorem ObservedOk.kept (hs : ObservedOk o) (h : SameOwner (o.sys.process i) proc') :
    (proc'.processStatus = .work → i < DMS_EVENT_EXCEPTION_PROCESS_MAX) ∧
      ∀ j ≠ i, (o.sys.process j).processPid = proc'.processPid →
        proc'.processPid = DMS_INVALID_PID := by
  refine ⟨fun hw => ?_, fun j hj heq => ?_⟩
  · by_contra hout
    cases (h.2.symm.trans hw).symm.trans (hs.outside i (Nat.le_of_not_lt hout))
  · by_contra hne
    rw [h.1] at heq hne
    exact hj (hs.pids i j heq.symm hne).symm

/-! ## Between passes -/

theorem Observed.passed_congr (hsending : o'.sys.sending = o.sys.sending)
    (hpublished : o'.published = o.published) : o'.passed = o.passed := by
  funext i
  rw [passed, passed, hsending, hpublished]

/-- A step that changes one entry while no pass moves. -/
theorem ObservedOk.changeAt (hs : ObservedOk o)
    (hprocess : o'.sys.process = Function.update o.sys.process i proc')
    (haccount : o'.account = Function.update o.account i a') (hclears : o.clears ⊆ o'.clears)
    (hsending : o'.sys.sending = o.sys.sending) (hpublished : o'.published = o.published)
    (hsince : a'.since ≤ o.passed i)
    (hentry : EntryOk proc' a' ((o.published.take (o.passed i)).drop a'.since) o'.clears)
    (hinside : proc'.processStatus = .work → i < DMS_EVENT_EXCEPTION_PROCESS_MAX)
    (hpid : ∀ j ≠ i, (o.sys.process j).processPid = proc'.processPid →
      proc'.processPid = DMS_INVALID_PID) : ObservedOk o' := by
  have hpassed : o'.passed = o.passed := Observed.passed_congr hsending hpublished
  refine hs.change hprocess haccount hclears (fun j hj _ => ?_) ?_ (fun j => ?_) hinside hpid ?_
  · rw [Observed.segment, Observed.segment, hpassed, hpublished, haccount,
      Function.update_of_ne hj]
  · rw [Observed.segment, hpassed, hpublished, haccount, Function.update_self]
    exact hentry
  · rw [hpassed, haccount]
    by_cases hj : j = i
    · rw [hj, Function.update_self]
      exact hsince
    · rw [Function.update_of_ne hj]
      exact hs.since j
  · rw [hsending, hpublished]
    exact hs.sending

/-- Where the readers stand is no part of the invariant. -/
theorem ObservedOk.readers (hs : ObservedOk o) (readers : List Reader) :
    ObservedOk { o with sys := { o.sys with readers } } :=
  ⟨hs.entry, hs.since, hs.outside, hs.pids, hs.sending⟩

theorem ObservedOk.fetch (hs : ObservedOk o) {tid : ℕ} {sys : Distribution}
    (hstep : fetch o.sys tid = some sys) : ObservedOk { o.expect (.fetch tid) with sys } := by
  obtain ⟨r, hr, hstep⟩ := Option.bind_eq_some_iff.mp hstep
  split at hstep
  · obtain rfl := Option.some.inj hstep
    have hkept := hs.kept (dmsEventGetExceptionByProcessIndex_sameOwner (o.sys.process r.index))
    cases hget : (dmsEventGetExceptionByProcessIndex (o.sys.process r.index)).1 with
    | none =>
        have hexpect : o.expect (.fetch tid) = o := by
          simp only [Observed.expect, hr, hget]
        rw [hexpect, (hs.entry r.index).get_none hget, Distribution.setProcess,
          Function.update_eq_self]
        exact hs.readers _
    | some event =>
        simp only [Observed.expect, hr, hget]
        exact hs.changeAt rfl rfl (List.Subset.refl _) rfl rfl (hs.since _)
          ((hs.entry _).get_some hget) hkept.1 hkept.2
  · cases hstep

theorem ObservedOk.clear (hs : ObservedOk o) {devid : UInt32} {alloc : Bool} {sys : Distribution}
    (hstep : clear o.sys i devid alloc = some sys) :
    ObservedOk { o.expect (.clear i devid alloc) with sys } := by
  rw [Dms.clear] at hstep
  split at hstep
  · obtain rfl := Option.some.inj hstep
    by_cases hw : (o.sys.process i).processStatus = .work ∧ alloc
    · simp only [Observed.expect, if_pos hw]
      obtain ⟨hw, rfl⟩ := hw
      have hkept := hs.kept
        (dmsEventClearExceptionByProcessIndex_sameOwner (o.sys.process i) devid true)
      exact hs.changeAt rfl rfl (List.subset_append_left _ _) rfl rfl (hs.since i)
        ((hs.entry i).clear hw) hkept.1 hkept.2
    · simp only [Observed.expect, if_neg hw, dmsEventClearExceptionByProcessIndex_keeps hw,
        Distribution.setProcess, Function.update_eq_self]
      exact hs
  · cases hstep

theorem ObservedOk.getIndex (hs : ObservedOk o) {pid tid : ℕ} {original alloc : Bool}
    {sys : Distribution} (hstep : getIndex o.sys pid tid original alloc = some sys) :
    ObservedOk { o.expect (.getIndex pid tid original alloc) with sys } := by
  rw [Dms.getIndex] at hstep
  split at hstep
  · cases hstep
  · cases hget : dmsEventGetProcessIndex o.sys.process pid tid original alloc with
    | mk i process' =>
        simp only [hget] at hstep
        simp only [Observed.expect, hget]
        rcases dmsEventGetProcessIndex_cases hget with ⟨rfl, -⟩ | ⟨hi, hidle, hfree, rfl⟩
        · rw [if_neg fun h => by cases h.1.symm.trans h.2]
          split at hstep
          · obtain rfl := Option.some.inj hstep
            exact hs
          · obtain rfl := Option.some.inj hstep
            exact hs.readers _
        · rw [if_neg (Nat.not_le_of_lt hi)] at hstep
          obtain rfl := Option.some.inj hstep
          rw [if_pos ⟨hidle, by rw [Function.update_self]; rfl⟩]
          refine hs.changeAt rfl rfl (List.Subset.refl _) rfl rfl (Nat.le_refl _) ?_ (fun _ => hi)
            fun j _ heq => ?_
          · rw [List.drop_eq_nil_of_le (List.length_take_le _ _)]
            exact EntryOk.opened
          · have hout : ¬j < DMS_EVENT_EXCEPTION_PROCESS_MAX := fun hj => hfree j hj heq
            exact heq ▸ ((hs.entry j).idle (hs.outside j (Nat.le_of_not_lt hout))).2

theorem ObservedOk.release (hs : ObservedOk o) {pid : ℤ} :
    ObservedOk { o with
      sys := { o.sys with process := dmsEventReleaseProc o.sys.process pid } } := by
  rcases dmsEventReleaseProc_cases o.sys.process pid with h | ⟨i, -, h⟩
  · rw [h]
    exact hs
  · rw [h]
    exact hs.changeAt rfl (Function.update_eq_self i _).symm (List.Subset.refl _) rfl rfl
      (hs.since i) (hs.entry i).released (fun h => nomatch h) fun _ _ _ => rfl

/-! ## Passes -/

/-- When the pass goes on from an entry, it is through with the event there, and
nothing changes for the other entries of the table. -/
theorem passed_next (hsending : o.sys.sending = some sending)
    (hindex : sending.index < DMS_EVENT_EXCEPTION_PROCESS_MAX)
    (hnext : o'.sys.sending = sending.next) (hpublished : o'.published = o.published)
    (hpos : 0 < o.published.length) :
    (∀ i, o.passed i ≤ o'.passed i) ∧
    (∀ i < DMS_EVENT_EXCEPTION_PROCESS_MAX, i ≠ sending.index → o'.passed i = o.passed i) ∧
    o.passed sending.index + 1 = o.published.length ∧
    o'.passed sending.index = o.published.length := by
  have hold : ∀ i, o.passed i =
      if sending.index ≤ i then o.published.length - 1 else o.published.length := by
    intro i
    rw [Observed.passed, hsending]
  have hnew : ∀ i, o'.passed i = if sending.index + 1 < DMS_EVENT_EXCEPTION_PROCESS_MAX ∧
      sending.index + 1 ≤ i then o.published.length - 1 else o.published.length := by
    intro i
    rw [Observed.passed, hnext, hpublished, Sending.next]
    by_cases hlast : sending.index + 1 < DMS_EVENT_EXCEPTION_PROCESS_MAX
    · simp only [hlast, if_true, true_and]
    · simp only [hlast, false_and, if_false]
  refine ⟨fun i => ?_, fun i hi hne => ?_, ?_, ?_⟩
  · rw [hold, hnew]
    split <;> split <;> omega
  · rw [hold, hnew]
    split <;> split <;> omega
  · rw [hold, if_pos (Nat.le_refl _)]
    omega
  · rw [hnew, if_neg (by omega)]

theorem sending_next {published : List DmsEventPara}
    (h : sending.index < DMS_EVENT_EXCEPTION_PROCESS_MAX ∧
      ∃ before, published = before ++ [sending.exception]) (sending' : Sending)
    (hnext : sending.next = some sending') :
    sending'.index < DMS_EVENT_EXCEPTION_PROCESS_MAX ∧
      ∃ before, published = before ++ [sending'.exception] := by
  rw [Sending.next] at hnext
  split at hnext
  · rename_i hlt
    obtain rfl := Option.some.inj hnext
    exact ⟨hlt, h.2⟩
  · cases hnext

theorem segment_next (o' : Observed) (hs : ObservedOk o) (hsending : o.sys.sending = some sending)
    (hnext : o'.sys.sending = sending.next) (hpublished : o'.published = o.published)
    (hsince : ∀ j, (o'.account j).since = (o.account j).since) :
    (∀ j, (o'.account j).since ≤ o'.passed j) ∧
    (∀ j ≠ sending.index, (o.sys.process j).processStatus = .work →
      o'.segment j = o.segment j) ∧
    o'.segment sending.index = o.segment sending.index ++ [sending.exception] := by
  obtain ⟨hindex, before, hlast⟩ := hs.sending _ hsending
  have hpos : 0 < o.published.length := by simp [hlast]
  obtain ⟨hmono, hothers, hold, hnew⟩ := passed_next hsending hindex hnext hpublished hpos
  refine ⟨fun j => ?_, fun j hne hw => ?_, ?_⟩
  · rw [hsince]
    exact Nat.le_trans (hs.since j) (hmono j)
  · have hj : j < DMS_EVENT_EXCEPTION_PROCESS_MAX := (hs.kept ⟨rfl, rfl⟩).1 hw
    rw [Observed.segment, Observed.segment, hothers j hj hne, hpublished, hsince]
  · have hlen : o.passed sending.index = before.length := by
      rw [hlast, List.length_append] at hold
      exact Nat.succ.inj hold
    have hsince' := hs.since sending.index
    rw [Observed.segment, Observed.segment, hnew, hpublished, hsince, List.take_length, hlen]
    rw [hlen] at hsince'
    rw [hlast, List.take_left, List.drop_append_of_le_length hsince']

/-- A step that leaves the entries and says no more about any of them. -/
theorem ObservedOk.between (hs : ObservedOk o) (hprocess : o'.sys.process = o.sys.process)
    (haccount : o'.account = o.account) (hclears : o'.clears = o.clears)
    (hpassed : o'.passed = o.passed)
    (htake : ∀ i, o'.published.take (o.passed i) = o.published.take (o.passed i))
    (hsending : ∀ sending, o'.sys.sending = some sending →
      sending.index < DMS_EVENT_EXCEPTION_PROCESS_MAX ∧
        ∃ before, o'.published = before ++ [sending.exception]) : ObservedOk o' := by
  have hsegment : o'.segment = o.segment := by
    funext i
    rw [Observed.segment, Observed.segment, hpassed, haccount, htake]
  refine ⟨fun i => ?_, fun i => ?_, ?_, ?_, hsending⟩
  · rw [hprocess, haccount, hclears, hsegment]
    exact hs.entry i
  · rw [haccount, hpassed]
    exact hs.since i
  · rw [hprocess]
    exact hs.outside
  · rw [hprocess]
    exact hs.pids

theorem ObservedOk.distribute (hs : ObservedOk o) {exception : DmsEventPara} {sys : Distribution}
    (hstep : distribute o.sys exception = some sys) :
    ObservedOk { o.expect (.distribute exception) with sys } := by
  rw [Dms.distribute] at hstep
  split at hstep
  · rename_i hnone
    obtain rfl := Option.some.inj hstep
    have hpassed : ∀ i, o.passed i = o.published.length := by
      intro i
      rw [Observed.passed, hnone]
    refine hs.between rfl rfl rfl (funext fun i => ?_) (fun i => ?_) fun sending h => ?_
    · rw [hpassed]
      simp [Observed.passed, Observed.expect]
    · rw [hpassed, Observed.expect, List.take_left, List.take_length]
    · obtain rfl := Option.some.inj h
      exact ⟨Nat.zero_lt_succ 63, o.published, rfl⟩
  · cases hstep

/-- A pass that goes on from an entry without a process. -/
theorem ObservedOk.stay (hs : ObservedOk o) (hsending : o.sys.sending = some sending)
    (hidle : (o.sys.process sending.index).processStatus ≠ .work) :
    ObservedOk { o with sys := { o.sys with sending := sending.next } } := by
  obtain ⟨hsince, hothers, -⟩ := segment_next
    { o with sys := { o.sys with sending := sending.next } } hs hsending rfl rfl fun _ => rfl
  have hkept := hs.kept (i := sending.index) ⟨rfl, rfl⟩
  exact hs.change (Function.update_eq_self sending.index _).symm
    (Function.update_eq_self sending.index _).symm (List.Subset.refl _) hothers
    ((hs.entry _).congr_idle hidle _) hsince hkept.1 hkept.2 (sending_next (hs.sending _ hsending))

theorem ObservedOk.look (hs : ObservedOk o) {sys : Distribution} (hstep : look o.sys = some sys) :
    ObservedOk { o.expect .look with sys } := by
  obtain ⟨sending, hsending, hstep⟩ := Option.bind_eq_some_iff.mp hstep
  split at hstep
  · cases hstep
  · split at hstep
    · rename_i hidle
      obtain rfl := Option.some.inj hstep
      exact hs.stay hsending hidle
    · obtain rfl := Option.some.inj hstep
      refine hs.between rfl rfl rfl (funext fun i => ?_) (fun _ => rfl) fun sending' h => ?_
      · rw [Observed.passed, Observed.passed, hsending]
        rfl
      · obtain rfl := Option.some.inj h
        exact hs.sending sending hsending

theorem ObservedOk.add (hs : ObservedOk o) {sys : Distribution} (hstep : add o.sys = some sys) :
    ObservedOk { o.expect .add with sys } := by
  obtain ⟨sending, hsending, hstep⟩ := Option.bind_eq_some_iff.mp hstep
  split at hstep
  · obtain rfl := Option.some.inj hstep
    by_cases hw : (o.sys.process sending.index).processStatus = .work
    · simp only [Observed.expect, hsending, if_pos hw]
      have hkept := hs.kept
        (dmsEventAddToProcessList_sameOwner (o.sys.process sending.index) sending.exception)
      obtain ⟨hsince, hothers, hsegment⟩ := segment_next
        { o.setAccount sending.index { o.account sending.index with
            mailbox :=
              (o.account sending.index).mailbox.arrive sending.exception fifoRoom_pos } with
          sys := { o.sys.setProcess sending.index (dmsEventAddToProcessList
            (o.sys.process sending.index) sending.exception) with sending := sending.next } }
        hs hsending rfl rfl fun j => by
          simp only [Observed.setAccount, Function.update_apply]
          split
          · rename_i hj
            rw [hj]
          · rfl
      refine hs.change rfl rfl (List.Subset.refl _) hothers ?_ hsince hkept.1 hkept.2
        (sending_next (hs.sending _ hsending))
      rw [hsegment]
      exact (hs.entry sending.index).arrive hw
    · simp only [Observed.expect, hsending, if_neg hw, dmsEventAddToProcessList_idle hw,
        Distribution.setProcess, Function.update_eq_self]
      exact hs.stay hsending hw
  · cases hstep

/-! ## Every run -/

theorem ObservedOk.step (hs : ObservedOk o) (hstep : distributionMachine.step o act = some o') :
    ObservedOk o' := by
  obtain ⟨sys, hsys, rfl⟩ := Option.map_eq_some_iff.mp hstep
  cases act with
  | distribute exception => exact hs.distribute hsys
  | look => exact hs.look hsys
  | add => exact hs.add hsys
  | getIndex pid tid original alloc => exact hs.getIndex hsys
  | wake tid =>
      obtain ⟨r, -, hsys⟩ := Option.bind_eq_some_iff.mp hsys
      split at hsys
      · obtain rfl := Option.some.inj hsys
        exact hs.readers _
      · cases hsys
  | giveUp tid =>
      obtain ⟨r, -, hsys⟩ := Option.bind_eq_some_iff.mp hsys
      split at hsys
      · obtain rfl := Option.some.inj hsys
        exact hs.readers _
      · cases hsys
  | fetch tid => exact hs.fetch hsys
  | clear i devid alloc => exact hs.clear hsys
  | release pid =>
      obtain rfl := Option.some.inj hsys
      exact hs.release

theorem ObservedOk.of_reach (h : distributionMachine.Reach o) : ObservedOk o :=
  Machine.ReachIf.invariant (M := distributionMachine) (P := ObservedOk)
    (fun _ ho => ho ▸ .start) (fun _ _ _ hs _ hstep => hs.step hstep) h

/-- Two entries do not belong to one process. -/
theorem ObservedOk.owner_unique (hs : ObservedOk o) {j : ℕ}
    (hwork : (o.sys.process i).processStatus = .work)
    (h : (o.sys.process j).processPid = (o.sys.process i).processPid) : j = i :=
  hs.pids j i h (h ▸ ((hs.entry i).work hwork).owned)

/-- An entry of a process is at work. -/
theorem ObservedOk.work (hs : ObservedOk o) {pid : ℕ} (h : (o.sys.process i).processPid = pid) :
    (o.sys.process i).processStatus = .work := by
  cases hstatus : (o.sys.process i).processStatus with
  | work => rfl
  | idle =>
      rw [((hs.entry i).idle hstatus).2] at h
      exact absurd h (Int.ne_of_lt (by change (-1 : ℤ) < pid; omega))

end OpiaiKernel.Dms
