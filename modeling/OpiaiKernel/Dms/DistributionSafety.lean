import OpiaiKernel.Dms.DistributionRuns

/-!
# Which events a reader misses, and whose it gets

A process that has an entry gets every event that is distributed from then on, in
the order of distribution and once.  It misses those that `fifoRoom` later ones
overran and those of a device that was cleared.  The events are for its own
threads as long as a process is not released while one of its threads is reading.
-/

namespace OpiaiKernel.Dms

variable {o o' : Observed} {a : DistributionAct} {i : ℕ}

/-- What became of the events since an entry was opened. -/
structure Delivered (o : Observed) (i : ℕ) : Prop where
  /-- What was read and then what is queued, as it was distributed. -/
  inOrder : ((o.account i).reads ++ (o.sys.process i).eventFifo.events).Sublist (o.segment i)
  arrived : (o.account i).mailbox.messages = o.segment i
  read : (o.account i).mailbox.taken = (o.account i).reads
  queued : (o.account i).mailbox.waiting = (o.sys.process i).eventFifo.events
  overrun : ∀ before event after,
    (o.account i).mailbox.trail = before ++ (event, .overrun) :: after → fifoRoom ≤ after.length
  cleared : ∀ event, (event, .cleared) ∈ (o.account i).mailbox.trail →
    ∃ devid ∈ o.clears, devid.toUInt16 = event.deviceid
  /-- The condition of the wait says whether something is queued. -/
  exceptionNum : (o.sys.process i).exceptionNum = (o.sys.process i).eventFifo.events.length
  owner : ∀ j, (o.sys.process j).processPid = (o.sys.process i).processPid → j = i

theorem distribution_delivers (h : distributionMachine.Reach o)
    (hwork : (o.sys.process i).processStatus = .work) : Delivered o i := by
  have hs := ObservedOk.of_reach h
  have hserves := (hs.entry i).work hwork
  have hsub := (o.account i).mailbox.taken_append_waiting
  rw [hserves.messages, hserves.taken, ← hserves.queue] at hsub
  exact
    { inOrder := hsub
      arrived := hserves.messages
      read := hserves.taken
      queued := hserves.queue.symm
      overrun := fun _ _ _ => (o.account i).mailbox.length_of_overrun
      cleared := (hs.entry i).cleared
      exceptionNum := (hs.entry i).count
      owner := fun _ => hs.owner_unique hwork }

/-- An event of a device. -/
def deviceEvent (deviceid : UInt16) (serial : Int32) : DmsEventPara :=
  { (default : DmsEventPara) with deviceid, eventSerialNum := serial }

/-- A whole pass that finds a process in the first `n` entries only. -/
def pass (n : ℕ) (event : DmsEventPara) : List DistributionAct :=
  .distribute event :: (List.replicate n [.look, .add]).flatten ++
    List.replicate (DMS_EVENT_EXCEPTION_PROCESS_MAX - n) .look

/-- Two processes read; the events of device 1 are cleared, then one process goes. -/
def twoReaders : List DistributionAct :=
  [.getIndex 10 11 true true, .getIndex 20 21 true true] ++ pass 2 (deviceEvent 1 1) ++
    [.wake 11, .fetch 11] ++ pass 2 (deviceEvent 2 2) ++
    [.clear 0 1 true, .clear 1 1 true, .wake 21, .fetch 21, .release 20]

theorem distribution_delivers_twoReaders :
    Delivered (distributionMachine.final .start twoReaders) 0 ∧
    ((distributionMachine.final .start twoReaders).account 0).reads = [deviceEvent 1 1] ∧
    (distributionMachine.final .start twoReaders).segment 0 =
      [deviceEvent 1 1, deviceEvent 2 2] :=
  ⟨distribution_delivers (Machine.Reach.final (.start rfl) (by decide +kernel)) (by decide +kernel),
    by decide +kernel, by decide +kernel⟩

/-! ## Events of other processes -/

/-- No process is released while one of its threads is in `dms_event_get_exception`. -/
def Calm (o : Observed) : DistributionAct → Prop
  | .release pid => ∀ r ∈ o.sys.readers, r.pid ≠ pid
  | _ => True

instance (o : Observed) : ∀ a, Decidable (Calm o a)
  | .release pid => inferInstanceAs (Decidable (∀ r ∈ o.sys.readers, r.pid ≠ pid))
  | .distribute _ | .look | .add | .getIndex .. | .wake _ | .giveUp _ | .fetch _ | .clear .. =>
      isTrue trivial

/-- The entry of a reader belongs to its process. -/
def ReaderOk (s : Distribution) (r : Reader) : Prop :=
  (s.process r.index).processStatus = .work ∧ (s.process r.index).processPid = r.pid

variable {s s' : Distribution} {r : Reader}

theorem ReaderOk.congr (h : ReaderOk s r) {r' : Reader} (hindex : r'.index = r.index)
    (hpid : r'.pid = r.pid) (howner : SameOwner (s.process r.index) (s'.process r.index)) :
    ReaderOk s' r' := by
  rw [ReaderOk, hindex, hpid, howner.1, howner.2]
  exact h

theorem SameOwner.update {proc' : DmsEventProcess} (h : SameOwner (s.process i) proc') (j : ℕ) :
    SameOwner (s.process j) ((s.setProcess i proc').process j) := by
  change SameOwner _ (Function.update s.process i proc' j)
  by_cases hj : j = i
  · rw [hj, Function.update_self]
    exact h
  · rw [Function.update_of_ne hj]
    exact ⟨rfl, rfl⟩

/-- The index that a thread gets is that of an entry at work for its process, and
no other reader loses its entry. -/
theorem getIndex_readers (hs : ObservedOk o) (hr : ∀ r ∈ o.sys.readers, ReaderOk o.sys r)
    {pid tid : ℕ} {original alloc : Bool} (hstep : getIndex o.sys pid tid original alloc = some s) :
    ∀ r ∈ s.readers, ReaderOk s r := by
  rw [getIndex] at hstep
  split at hstep
  · cases hstep
  · cases hget : dmsEventGetProcessIndex o.sys.process pid tid original alloc with
    | mk i process' =>
        simp only [hget] at hstep
        rcases dmsEventGetProcessIndex_cases hget with ⟨rfl, hmax | ⟨hi, hpid⟩⟩ |
          ⟨hi, hidle, -, rfl⟩
        · rw [if_pos hmax] at hstep
          obtain rfl := Option.some.inj hstep
          exact hr
        · rw [if_neg (Nat.not_le_of_lt hi)] at hstep
          obtain rfl := Option.some.inj hstep
          intro r hmem
          rcases List.mem_append.mp hmem with hmem | hmem
          · exact hr r hmem
          · obtain rfl := List.mem_singleton.mp hmem
            exact ⟨hs.work hpid, hpid⟩
        · rw [if_neg (Nat.not_le_of_lt hi)] at hstep
          obtain rfl := Option.some.inj hstep
          intro r hmem
          rcases List.mem_append.mp hmem with hmem | hmem
          · have hne : r.index ≠ i := by
              intro heq
              have hwork := (hr r hmem).1
              rw [heq, hidle] at hwork
              cases hwork
            refine (hr r hmem).congr rfl rfl ?_
            simp only [Function.update_of_ne hne]
            exact ⟨rfl, rfl⟩
          · obtain rfl := List.mem_singleton.mp hmem
            simp only [ReaderOk, Function.update_self]
            exact ⟨rfl, rfl⟩

theorem readers_step (hs : ObservedOk o) (hr : ∀ r ∈ o.sys.readers, ReaderOk o.sys r)
    (hok : Calm o a) (hstep : o.sys.step a = some s) : ∀ r ∈ s.readers, ReaderOk s r := by
  cases a with
  | distribute exception =>
      simp only [Distribution.step, distribute] at hstep
      split at hstep
      · obtain rfl := Option.some.inj hstep
        exact hr
      · cases hstep
  | look =>
      obtain ⟨sending, -, hstep⟩ := Option.bind_eq_some_iff.mp hstep
      split at hstep
      · cases hstep
      · split at hstep <;> (obtain rfl := Option.some.inj hstep; exact hr)
  | add =>
      obtain ⟨sending, -, hstep⟩ := Option.bind_eq_some_iff.mp hstep
      split at hstep
      · obtain rfl := Option.some.inj hstep
        exact fun r hmem => (hr r hmem).congr rfl rfl
          ((dmsEventAddToProcessList_sameOwner _ _).update r.index)
      · cases hstep
  | getIndex pid tid original alloc =>
      exact getIndex_readers hs hr hstep
  | wake tid =>
      obtain ⟨r₀, -, hstep⟩ := Option.bind_eq_some_iff.mp hstep
      split at hstep
      · obtain rfl := Option.some.inj hstep
        intro r hmem
        obtain ⟨r', hr', rfl⟩ := List.mem_map.mp hmem
        split <;> exact hr r' hr'
      · cases hstep
  | giveUp tid =>
      obtain ⟨r₀, -, hstep⟩ := Option.bind_eq_some_iff.mp hstep
      split at hstep
      · obtain rfl := Option.some.inj hstep
        exact fun r hmem => hr r (Keyed.mem_remove.mp hmem).1
      · cases hstep
  | fetch tid =>
      obtain ⟨r₀, -, hstep⟩ := Option.bind_eq_some_iff.mp hstep
      split at hstep
      · obtain rfl := Option.some.inj hstep
        exact fun r hmem => (hr r (Keyed.mem_remove.mp hmem).1).congr rfl rfl
          ((dmsEventGetExceptionByProcessIndex_sameOwner _).update r.index)
      · cases hstep
  | clear i devid alloc =>
      simp only [Distribution.step, clear] at hstep
      split at hstep
      · obtain rfl := Option.some.inj hstep
        exact fun r hmem => (hr r hmem).congr rfl rfl
          ((dmsEventClearExceptionByProcessIndex_sameOwner _ _ _).update r.index)
      · cases hstep
  | release pid =>
      obtain rfl := Option.some.inj hstep
      intro r hmem
      rcases dmsEventReleaseProc_cases o.sys.process pid with h | ⟨i, hi, h⟩
      · rw [h]
        exact hr r hmem
      · rw [h]
        have hne : r.index ≠ i := by
          intro heq
          have hpid := (hr r hmem).2
          rw [heq, hi] at hpid
          exact hok r hmem (Int.ofNat.inj hpid).symm
        refine (hr r hmem).congr rfl rfl ?_
        simp only [Function.update_of_ne hne]
        exact ⟨rfl, rfl⟩

/-- What a thread reads comes from its own entry. -/
theorem reads_step (hr : ∀ r ∈ o.sys.readers, ReaderOk o.sys r)
    (hreads : ∀ r ∈ o.reads, r.owner = r.pid) : ∀ r ∈ (o.expect a).reads, r.owner = r.pid := by
  cases a with
  | fetch tid =>
      simp only [Observed.expect]
      split
      · rename_i r hget
        split
        · intro r' hr'
          rcases List.mem_append.mp hr' with hr' | hr'
          · exact hreads r' hr'
          · obtain rfl := List.mem_singleton.mp hr'
            exact (hr r (Keyed.mem_of_get hget)).2
        · exact hreads
      · exact hreads
  | add =>
      simp only [Observed.expect]
      split
      · split <;> exact hreads
      · exact hreads
  | getIndex pid tid original alloc =>
      simp only [Observed.expect]
      split <;> exact hreads
  | clear i devid alloc =>
      simp only [Observed.expect]
      split <;> exact hreads
  | _ => exact hreads

theorem distribution_private (h : distributionMachine.ReachIf Calm o) :
    (∀ r ∈ o.reads, r.owner = r.pid) ∧ ∀ r ∈ o.sys.readers,
      (o.sys.process r.index).processStatus = .work ∧
        (o.sys.process r.index).processPid = r.pid := by
  have hall : ObservedOk o ∧ (∀ r ∈ o.reads, r.owner = r.pid) ∧
      ∀ r ∈ o.sys.readers, ReaderOk o.sys r := by
    refine Machine.ReachIf.invariant (M := distributionMachine)
      (P := fun o => ObservedOk o ∧ (∀ r ∈ o.reads, r.owner = r.pid) ∧
        ∀ r ∈ o.sys.readers, ReaderOk o.sys r) ?_ ?_ h
    · rintro _ rfl
      exact ⟨.start, fun _ hr => (nomatch hr), fun _ hr => (nomatch hr)⟩
    · rintro o a o' ⟨hs, hreads, hr⟩ hok hstep
      refine ⟨hs.step hstep, ?_⟩
      obtain ⟨s, hsys, rfl⟩ := Option.map_eq_some_iff.mp hstep
      exact ⟨reads_step hr hreads, readers_step hs hr hok hsys⟩
  exact hall.2

theorem distribution_private_twoReaders :
    ((distributionMachine.final .start twoReaders).reads.map fun r => (r.pid, r.event)) =
      [(10, deviceEvent 1 1), (20, deviceEvent 2 2)] ∧
    ∀ r ∈ (distributionMachine.final .start twoReaders).reads, r.owner = r.pid :=
  ⟨by decide +kernel, (distribution_private
    (Machine.ReachIf.final (.start rfl) (by decide +kernel) (by decide +kernel))).1⟩

/-- The process of a thread that waits is released, and another gets its entry. -/
def strangers : List DistributionAct :=
  [.getIndex 10 11 true true, .release 10, .getIndex 20 21 true true] ++
    pass 1 (deviceEvent 1 1) ++ [.wake 11, .fetch 11]

example : ((distributionMachine.final .start strangers).reads.map fun r => (r.pid, r.owner)) =
    [(10, 20)] := by decide

end OpiaiKernel.Dms
