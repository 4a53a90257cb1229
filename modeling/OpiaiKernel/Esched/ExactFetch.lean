import OpiaiKernel.Esched.NonSchedWait
import Mathlib.Algebra.Order.BigOperators.Group.Finset
import Mathlib.Data.Finset.Prod

/-!
# Fetching one event id

The list that a published event waits in is chosen by the priorities of its
process and of its id.  A running thread that fetches one event id searches the
list of the priorities of that moment, so that an event which was published
before a priority has changed is not found.

The functions are translated from `esched.c`.  Calls follow one another, the
groups and their threads stay as they are, and the processes are alive.  Which
event a cpu takes for a thread that waits is left open.
-/

namespace OpiaiKernel.Esched.ExactFetch

def SCHED_MAX_GRP_NUM : ℕ := 64

def SCHED_MAX_EVENT_TYPE_NUM : ℕ := 64

def SCHED_DEFAULT_EVENT_PRI : ℕ := 1

/-- An event with its number in the order of publication. -/
structure Queued where
  event : SchedEvent
  stamp : ℕ
  deriving DecidableEq

/-- The lists: those of the node by the two priorities, and those of a group that
is not scheduled. -/
inductive Place
  | node (procPri eventPri : ℕ)
  | grp (k : GrpId) (eventPri : ℕ)
  deriving DecidableEq

/-- The counter of a list: that of the node, or of its group. -/
def Place.owner : Place → Option GrpId
  | .node .. => none
  | .grp k _ => some k

structure State where
  pri : ℕ → ℕ
  eventPri : ℕ → ℕ → ℕ
  list : Place → SchedEventList Queued
  curEventNum : Option GrpId → ℤ
  clock : ℕ

inductive Op
  | publish (k : GrpId) (eventId : ℕ) (tid : Option ℕ) (full : Bool)
  | cpuWait (procPri eventPri : ℕ) (canHandle : Queued → Bool)
  | nonSchedWait (k : GrpId) (tid : ℕ)
  | exact (k : GrpId) (eventId : ℕ)
  | setEventPriority (pid eventId pri : ℕ)
  | setProcessPriority (pid pri : ℕ)

variable (procPriNum : ℕ) (grp : GrpId → SchedGrpCtx)

/-! ## Lists -/

def schedGetSchedEventList (s : State) (pid eventId : ℕ) : Place :=
  .node (s.pri pid) (s.eventPri pid eventId)

def schedGetNonSchedEventList (s : State) (k : GrpId) (eventId : ℕ) : Place :=
  .grp k (s.eventPri k.1 eventId)

/-- An event enters a list and is counted, if the list is not full. -/
def enqueue (s : State) (p : Place) (event : SchedEvent) : State :=
  match schedEventAddTail (s.list p) ⟨event, s.clock⟩ with
  | none => s
  | some l =>
      { s with
        list := Function.update s.list p l
        curEventNum := Function.update s.curEventNum p.owner (s.curEventNum p.owner + 1)
        clock := s.clock + 1 }

/-- An event has left a list. -/
def dequeue (s : State) (p : Place) (l : SchedEventList Queued) : State :=
  { s with
    list := Function.update s.list p l
    curEventNum := Function.update s.curEventNum p.owner (s.curEventNum p.owner - 1) }

/-! ## Publishing -/

/-- An event that is too many for its group is dropped. -/
def schedPublishEventToSchedGrp (s : State) (k : GrpId) (event : SchedEvent) (full : Bool) :
    State :=
  if ((grp k).eventTimeoutInfo event.eventId).timeoutFlag = true then s
  else if schedGrpCanHandleEvent (grp k) event = false then s
  else if full = true then s
  else enqueue s (schedGetSchedEventList s k.1 event.eventId) event

def schedPublishEventToNonSchedGrp (s : State) (k : GrpId) (event : SchedEvent) (full : Bool) :
    State :=
  if schedGrpCanHandleEvent (grp k) event = false then s
  else if full = true then s
  else enqueue s (schedGetNonSchedEventList s k event.eventId) event

def schedPublishEvent (s : State) (k : GrpId) (eventId : ℕ) (tid : Option ℕ) (full : Bool) :
    State :=
  let event : SchedEvent := ⟨k.1, k.2, eventId, none⟩
  let event := match tid with
    | none => event
    | some tid => schedEventAddThread event tid
  if SCHED_MAX_GRP_NUM ≤ k.2 ∨ SCHED_MAX_EVENT_TYPE_NUM ≤ eventId then s
  else if (grp k).schedMode = .uninit then s
  else if tid.any ((grp k).cfgThreadNum ≤ ·) = true then s
  else if (grp k).schedMode = .schedCpu then schedPublishEventToSchedGrp grp s k event full
  else schedPublishEventToNonSchedGrp grp s k event full

/-! ## Waiting -/

/-- One search of `sched_get_next_thread_in_list`. -/
def schedGetNextThreadInList (s : State) (p : Place) (canHandle : Queued → Bool) : State :=
  match schedEventSearch (fun st q => (canHandle q, st)) () (s.list p) with
  | (none, _, _) => s
  | (some _, l, _) => dequeue s p l

/-- `sched_get_next_non_sched_event`, from the list of priority `i` on. -/
def schedGetNextNonSchedEvent (s : State) (k : GrpId) (tid : ℕ) (i : ℕ) : State :=
  if i < SCHED_MAX_EVENT_PRI_NUM then
    match schedTakeFirst (fun q => schedThreadCanHandleEvent ((grp k).threadCtx tid) q.event)
        (s.list (.grp k i)) with
    | none => schedGetNextNonSchedEvent s k tid (i + 1)
    | some (_, l) => dequeue s (.grp k i) l
  else s
termination_by SCHED_MAX_EVENT_PRI_NUM - i

/-! ## Fetching -/

/-- `sched_get_specified_event` between the test of the counter and its decrement. -/
def getSpecifiedEvent (s : State) (p : Place) (k : GrpId) (eventId : ℕ) : Option Queued × State :=
  if s.curEventNum p.owner = 0 then (none, s)
  else
    match schedTakeFirst (fun q => schedIsSpecifiedEvent k eventId q.event) (s.list p) with
    | none => (none, s)
    | some (q, l) => (some q, dequeue s p l)

def schedCpuGetSpecifiedEvent (s : State) (k : GrpId) (eventId : ℕ) : Option Queued × State :=
  getSpecifiedEvent s (schedGetSchedEventList s k.1 eventId) k eventId

def schedGetExactNonSchedEvent (s : State) (k : GrpId) (eventId : ℕ) : Option Queued × State :=
  getSpecifiedEvent s (schedGetNonSchedEventList s k eventId) k eventId

/-- `sched_get_exact_event`, for a thread that runs. -/
def schedGetExactEvent (s : State) (k : GrpId) (eventId : ℕ) : Option Queued × State :=
  if SCHED_MAX_EVENT_TYPE_NUM ≤ eventId ∨ SCHED_MAX_GRP_NUM ≤ k.2 then (none, s)
  else if (grp k).schedMode = .uninit then (none, s)
  else if (grp k).schedMode = .schedCpu then schedCpuGetSpecifiedEvent s k eventId
  else schedGetExactNonSchedEvent s k eventId

/-! ## Priorities -/

def schedSetEventPriority (s : State) (pid eventId pri : ℕ) : State :=
  if SCHED_MAX_EVENT_PRI_NUM ≤ pri then s
  else if SCHED_MAX_EVENT_TYPE_NUM ≤ eventId then s
  else
    { s with
      eventPri := Function.update s.eventPri pid (Function.update (s.eventPri pid) eventId pri) }

def schedSetProcessPriority (s : State) (pid pri : ℕ) : State :=
  if procPriNum ≤ pri then s else { s with pri := Function.update s.pri pid pri }

/-! ## The machine -/

def step (s : State) : Op → State
  | .publish k eventId tid full => schedPublishEvent grp s k eventId tid full
  | .cpuWait procPri eventPri canHandle =>
      schedGetNextThreadInList s (.node procPri eventPri) canHandle
  | .nonSchedWait k tid => schedGetNextNonSchedEvent grp s k tid 0
  | .exact k eventId => (schedGetExactEvent grp s k eventId).2
  | .setEventPriority pid eventId pri => schedSetEventPriority s pid eventId pri
  | .setProcessPriority pid pri => schedSetProcessPriority procPriNum s pid pri

/-- No event is published, and the priorities are the default ones. -/
def initState (defaultPri depth : ℕ) : State where
  pri _ := defaultPri
  eventPri _ _ := SCHED_DEFAULT_EVENT_PRI
  list _ := ⟨depth, 0, []⟩
  curEventNum _ := 0
  clock := 0

def machine : Machine State Op where
  init s := ∃ defaultPri depth, defaultPri < procPriNum ∧ s = initState defaultPri depth
  step s op := some (step procPriNum grp s op)

/-! ## The claim -/

def State.Has (s : State) (q : Queued) : Prop := ∃ p, q ∈ (s.list p).head

/-- A fetch returns the oldest event of its kind, and nothing only when there is
none. -/
def Finds (s : State) (k : GrpId) (eventId : ℕ) : Prop :=
  match (schedGetExactEvent grp s k eventId).1 with
  | none => ∀ q, s.Has q → schedIsSpecifiedEvent k eventId q.event = false
  | some q => s.Has q ∧ schedIsSpecifiedEvent k eventId q.event = true ∧
      ∀ q', s.Has q' → schedIsSpecifiedEvent k eventId q'.event = true → q.stamp ≤ q'.stamp

/-- A priority is refused, or is set to what it is, or is set while no event waits that it
concerns. -/
def PriorityKept (s : State) : Op → Prop
  | .setEventPriority pid eventId pri =>
      SCHED_MAX_EVENT_PRI_NUM ≤ pri ∨ SCHED_MAX_EVENT_TYPE_NUM ≤ eventId ∨
        s.eventPri pid eventId = pri ∨
          ∀ q, s.Has q → ¬ (q.event.pid = pid ∧ q.event.eventId = eventId)
  | .setProcessPriority pid pri =>
      procPriNum ≤ pri ∨ s.pri pid = pri ∨
        ∀ q, s.Has q → (grp q.event.grpId).schedMode = .schedCpu → q.event.pid ≠ pid
  | _ => True

/-! ## Where an event waits -/

variable {procPriNum : ℕ} {grp : GrpId → SchedGrpCtx} {s : State} {k : GrpId} {eventId : ℕ}
  {p : Place} {q : Queued} {l : SchedEventList Queued}

/-- The list that a published event enters and that a fetch searches. -/
def eventList (grp : GrpId → SchedGrpCtx) (s : State) (k : GrpId) (eventId : ℕ) : Place :=
  if (grp k).schedMode = .schedCpu then schedGetSchedEventList s k.1 eventId
  else schedGetNonSchedEventList s k eventId

/-- The ids for which a call goes on to the list. -/
def Accepted (grp : GrpId → SchedGrpCtx) (k : GrpId) (eventId : ℕ) : Prop :=
  eventId < SCHED_MAX_EVENT_TYPE_NUM ∧ k.2 < SCHED_MAX_GRP_NUM ∧ (grp k).schedMode ≠ .uninit

theorem schedGetExactEvent_of_accepted (h : Accepted grp k eventId) :
    schedGetExactEvent grp s k eventId =
      getSpecifiedEvent s (eventList grp s k eventId) k eventId := by
  obtain ⟨he, hk, hmode⟩ := h
  rw [schedGetExactEvent, if_neg (by omega), if_neg hmode, eventList]
  split <;> rfl

theorem schedGetExactEvent_of_not_accepted (h : ¬ Accepted grp k eventId) :
    schedGetExactEvent grp s k eventId = (none, s) := by
  rw [schedGetExactEvent]
  split
  · rfl
  · next hid =>
      rw [if_pos]
      by_contra hmode
      exact h ⟨by omega, by omega, hmode⟩

/-- A call that publishes either leaves the state as it is or adds the event. -/
theorem schedPublishEvent_cases (grp : GrpId → SchedGrpCtx) (s : State) (k : GrpId) (eventId : ℕ)
    (tid : Option ℕ) (full : Bool) :
    schedPublishEvent grp s k eventId tid full = s ∨
      ∃ event : SchedEvent, event.grpId = k ∧ event.eventId = eventId ∧
        Accepted grp k eventId ∧ schedPublishEvent grp s k eventId tid full =
          enqueue s (eventList grp s k eventId) event := by
  obtain ⟨event, hevent, hk, he⟩ : ∃ event : SchedEvent,
      event = (match tid with
        | none => (⟨k.1, k.2, eventId, none⟩ : SchedEvent)
        | some tid => schedEventAddThread ⟨k.1, k.2, eventId, none⟩ tid) ∧
      event.grpId = k ∧ event.eventId = eventId := by
    refine ⟨_, rfl, ?_⟩
    cases tid <;> exact ⟨rfl, rfl⟩
  simp only [schedPublishEvent, ← hevent]
  split
  · exact .inl rfl
  split
  · exact .inl rfl
  split
  · exact .inl rfl
  next hid hmode _ =>
  have hacc : Accepted grp k eventId := ⟨by omega, by omega, hmode⟩
  split
  · next hcpu =>
      rw [schedPublishEventToSchedGrp, eventList, if_pos hcpu, ← he]
      repeat' split
      · exact .inl rfl
      · exact .inl rfl
      · exact .inl rfl
      · exact .inr ⟨event, hk, rfl, he ▸ hacc, rfl⟩
  · next hcpu =>
      rw [schedPublishEventToNonSchedGrp, eventList, if_neg hcpu, ← he]
      repeat' split
      · exact .inl rfl
      · exact .inl rfl
      · exact .inr ⟨event, hk, rfl, he ▸ hacc, rfl⟩

/-! ## What every step keeps -/

/-- The lists that a counter counts. -/
def places (procPriNum : ℕ) : Option GrpId → Finset Place
  | none => (Finset.range procPriNum ×ˢ Finset.range SCHED_MAX_EVENT_PRI_NUM).image
      fun x => .node x.1 x.2
  | some k => (Finset.range SCHED_MAX_EVENT_PRI_NUM).image (.grp k)

theorem owner_of_mem_places {o : Option GrpId} (h : p ∈ places procPriNum o) : p.owner = o := by
  cases o with
  | none =>
      obtain ⟨x, -, rfl⟩ := Finset.mem_image.mp h
      rfl
  | some k =>
      obtain ⟨i, -, rfl⟩ := Finset.mem_image.mp h
      rfl

/-- Every event waits in the list of the priorities of the moment, in the order of
publication, and is counted. -/
structure Inv (procPriNum : ℕ) (grp : GrpId → SchedGrpCtx) (s : State) : Prop where
  pri_lt : ∀ pid, s.pri pid < procPriNum
  eventPri_lt : ∀ pid eventId, s.eventPri pid eventId < SCHED_MAX_EVENT_PRI_NUM
  inPlace : ∀ p, ∀ q ∈ (s.list p).head, eventList grp s q.event.grpId q.event.eventId = p
  accepted : ∀ p, ∀ q ∈ (s.list p).head, Accepted grp q.event.grpId q.event.eventId
  sorted : ∀ p, (s.list p).head.Pairwise (·.stamp < ·.stamp)
  stamp_lt : ∀ p, ∀ q ∈ (s.list p).head, q.stamp < s.clock
  count : ∀ o, s.curEventNum o = ∑ p ∈ places procPriNum o, ((s.list p).head.length : ℤ)

theorem Inv.init {defaultPri : ℕ} (h : defaultPri < procPriNum) (depth : ℕ) :
    Inv procPriNum grp (initState defaultPri depth) where
  pri_lt _ := h
  eventPri_lt _ _ := show SCHED_DEFAULT_EVENT_PRI < SCHED_MAX_EVENT_PRI_NUM by decide
  inPlace p q hq := by cases hq
  accepted p q hq := by cases hq
  sorted _ := .nil
  stamp_lt p q hq := by cases hq
  count o := by simp [initState]

theorem Inv.mem_places (hs : Inv procPriNum grp s) (k : GrpId) (eventId : ℕ) :
    eventList grp s k eventId ∈ places procPriNum (eventList grp s k eventId).owner := by
  have hpri := hs.pri_lt k.1
  have hevent := hs.eventPri_lt k.1 eventId
  rw [eventList]
  split
  · exact Finset.mem_image.mpr
      ⟨(_, _), Finset.mem_product.mpr ⟨Finset.mem_range.mpr hpri, Finset.mem_range.mpr hevent⟩, rfl⟩
  · exact Finset.mem_image.mpr ⟨_, Finset.mem_range.mpr hevent, rfl⟩

/-- A counter follows a list of its own. -/
theorem count_update {list : Place → SchedEventList Queued} {num : Option GrpId → ℤ} {d : ℤ}
    (hcount : ∀ o, num o = ∑ p ∈ places procPriNum o, ((list p).head.length : ℤ))
    (hp : p ∈ places procPriNum p.owner)
    (hl : (l.head.length : ℤ) = (list p).head.length + d) (o : Option GrpId) :
    Function.update num p.owner (num p.owner + d) o =
      ∑ p' ∈ places procPriNum o, ((Function.update list p l p').head.length : ℤ) := by
  by_cases ho : o = p.owner
  · subst ho
    have hrest : ∑ p' ∈ (places procPriNum p.owner).erase p,
        ((Function.update list p l p').head.length : ℤ) =
          ∑ p' ∈ (places procPriNum p.owner).erase p, ((list p').head.length : ℤ) := by
      apply Finset.sum_congr rfl
      intro p' hp'
      rw [Function.update_of_ne (Finset.ne_of_mem_erase hp')]
    rw [Function.update_self, hcount, ← Finset.add_sum_erase _ _ hp, ← Finset.add_sum_erase _ _ hp,
      hrest, Function.update_self, hl]
    exact add_right_comm _ _ _
  · rw [Function.update_of_ne ho, hcount]
    apply Finset.sum_congr rfl
    intro p' hp'
    rw [Function.update_of_ne]
    rintro rfl
    exact ho (owner_of_mem_places hp').symm

/-! ### An event leaves -/

theorem head_update_sublist {list : Place → SchedEventList Queued}
    (h : l.head.Sublist (list p).head) (p' : Place) :
    (Function.update list p l p').head.Sublist (list p').head := by
  by_cases hp : p' = p
  · subst hp
    rwa [Function.update_self]
  · rw [Function.update_of_ne hp]

theorem Inv.dequeue (hs : Inv procPriNum grp s) (hsub : l.head.Sublist (s.list p).head)
    (hlen : l.head.length + 1 = (s.list p).head.length) :
    Inv procPriNum grp (dequeue s p l) := by
  have hmem : ∀ p', ∀ q ∈ (Function.update s.list p l p').head, q ∈ (s.list p').head :=
    fun p' q hq => (head_update_sublist hsub p').subset hq
  obtain ⟨q, hq⟩ : ∃ q, q ∈ (s.list p).head :=
    List.exists_mem_of_length_pos (by omega)
  have hp : p ∈ places procPriNum p.owner := hs.inPlace p q hq ▸ hs.mem_places _ _
  exact {
    pri_lt := hs.pri_lt
    eventPri_lt := hs.eventPri_lt
    inPlace := fun p' q hq => hs.inPlace p' q (hmem p' q hq)
    accepted := fun p' q hq => hs.accepted p' q (hmem p' q hq)
    sorted := fun p' => (hs.sorted p').sublist (head_update_sublist hsub p')
    stamp_lt := fun p' q hq => hs.stamp_lt p' q (hmem p' q hq)
    count := count_update hs.count hp (by omega) }

theorem takeFirst_sublist {isMatch : Queued → Bool} {eventList : SchedEventList Queued}
    (h : schedTakeFirst isMatch eventList = some (q, l)) :
    l.head.Sublist eventList.head ∧ l.head.length + 1 = eventList.head.length := by
  obtain ⟨hq, hmatch, -⟩ := mem_of_takeFirst h
  obtain ⟨_, -, heq⟩ := Option.map_eq_some_iff.mp h
  obtain ⟨-, rfl⟩ := Prod.mk.inj heq
  refine ⟨List.eraseP_sublist, ?_⟩
  have hpos := List.length_pos_of_mem hq
  rw [List.length_eraseP_of_mem hq hmatch]
  omega

theorem eventSearch_sublist {canHandle : Unit → Queued → Bool × Unit} {st st' : Unit}
    {eventList : SchedEventList Queued}
    (h : schedEventSearch canHandle st eventList = (some q, l, st')) :
    l.head.Sublist eventList.head ∧ l.head.length + 1 = eventList.head.length := by
  unfold schedEventSearch at h
  split at h
  · cases h
  · next found head st₁ hsearch =>
      simp only [Prod.mk.injEq, Option.some.injEq] at h
      obtain ⟨rfl, rfl, -⟩ := h
      obtain ⟨⟨before, after, hhead, hrest⟩, -⟩ := schedSearch_some hsearch
      rw [hhead, hrest]
      refine ⟨List.Sublist.append_left (List.sublist_cons_self _ _) _, ?_⟩
      simp only [List.length_append, List.length_cons]
      omega

theorem Inv.getSpecifiedEvent (hs : Inv procPriNum grp s) :
    Inv procPriNum grp (getSpecifiedEvent s p k eventId).2 := by
  rw [ExactFetch.getSpecifiedEvent]
  split
  · exact hs
  split
  · exact hs
  · next htake =>
      obtain ⟨hsub, hlen⟩ := takeFirst_sublist htake
      exact hs.dequeue hsub hlen

theorem Inv.exact (hs : Inv procPriNum grp s) :
    Inv procPriNum grp (schedGetExactEvent grp s k eventId).2 := by
  by_cases hacc : Accepted grp k eventId
  · rw [schedGetExactEvent_of_accepted hacc]
    exact hs.getSpecifiedEvent
  · rw [schedGetExactEvent_of_not_accepted hacc]
    exact hs

theorem Inv.cpuWait (hs : Inv procPriNum grp s) (canHandle : Queued → Bool) :
    Inv procPriNum grp (schedGetNextThreadInList s p canHandle) := by
  rw [schedGetNextThreadInList]
  split
  · exact hs
  · next hsearch =>
      obtain ⟨hsub, hlen⟩ := eventSearch_sublist hsearch
      exact hs.dequeue hsub hlen

theorem Inv.nonSchedWait (hs : Inv procPriNum grp s) (tid i : ℕ) :
    Inv procPriNum grp (schedGetNextNonSchedEvent grp s k tid i) := by
  induction i using schedGetNextNonSchedEvent.induct grp s k tid with
  | case1 i hi hnone ih =>
      rw [schedGetNextNonSchedEvent, if_pos hi, hnone]
      exact ih
  | case2 i hi q l htake =>
      rw [schedGetNextNonSchedEvent, if_pos hi, htake]
      obtain ⟨hsub, hlen⟩ := takeFirst_sublist htake
      exact hs.dequeue hsub hlen
  | case3 i hi =>
      rw [schedGetNextNonSchedEvent, if_neg hi]
      exact hs

/-! ### An event enters -/

theorem mem_head_update {list : Place → SchedEventList Queued} {p' : Place}
    (hl : l.head = (list p).head ++ [q]) {q' : Queued}
    (h : q' ∈ (Function.update list p l p').head) : q' ∈ (list p').head ∨ p' = p ∧ q' = q := by
  by_cases hp : p' = p
  · subst hp
    rw [Function.update_self, hl, List.mem_append, List.mem_singleton] at h
    exact h.imp_right fun h => ⟨rfl, h⟩
  · rw [Function.update_of_ne hp] at h
    exact .inl h

theorem sorted_update {list : Place → SchedEventList Queued}
    (hsorted : ∀ p', (list p').head.Pairwise (·.stamp < ·.stamp))
    (hl : l.head = (list p).head ++ [q]) (hq : ∀ q' ∈ (list p).head, q'.stamp < q.stamp)
    (p' : Place) : (Function.update list p l p').head.Pairwise (·.stamp < ·.stamp) := by
  by_cases hp : p' = p
  · subst hp
    rw [Function.update_self, hl, List.pairwise_append]
    refine ⟨hsorted p', List.pairwise_singleton _ _, fun q' hq' a ha => ?_⟩
    rw [List.mem_singleton.mp ha]
    exact hq q' hq'
  · rw [Function.update_of_ne hp]
    exact hsorted p'

theorem Inv.enqueue (hs : Inv procPriNum grp s) {event : SchedEvent} (hk : event.grpId = k)
    (he : event.eventId = eventId) (hacc : Accepted grp k eventId) :
    Inv procPriNum grp (enqueue s (eventList grp s k eventId) event) := by
  rw [ExactFetch.enqueue]
  split
  · exact hs
  next l hadd =>
  simp only [schedEventAddTail, Option.ite_none_right_eq_some, Option.some.injEq] at hadd
  obtain ⟨-, rfl⟩ := hadd
  have hlen (events : List Queued) :
      ((events ++ [(⟨event, s.clock⟩ : Queued)]).length : ℤ) = events.length + 1 := by simp
  exact {
    pri_lt := hs.pri_lt
    eventPri_lt := hs.eventPri_lt
    inPlace := by
      intro p' q' hq'
      rcases mem_head_update rfl hq' with hq' | ⟨rfl, rfl⟩
      · exact hs.inPlace p' q' hq'
      · subst hk he
        rfl
    accepted := by
      intro p' q' hq'
      rcases mem_head_update rfl hq' with hq' | ⟨rfl, rfl⟩
      · exact hs.accepted p' q' hq'
      · subst hk he
        exact hacc
    sorted := sorted_update hs.sorted rfl (hs.stamp_lt _)
    stamp_lt := by
      intro p' q' hq'
      rcases mem_head_update rfl hq' with hq' | ⟨rfl, rfl⟩
      · exact (hs.stamp_lt p' q' hq').trans (Nat.lt_succ_self _)
      · exact Nat.lt_succ_self _
    count := count_update hs.count (hs.mem_places k eventId) (hlen _) }

theorem Inv.publish (hs : Inv procPriNum grp s) (tid : Option ℕ) (full : Bool) :
    Inv procPriNum grp (schedPublishEvent grp s k eventId tid full) := by
  obtain heq | ⟨event, hk, he, hacc, heq⟩ := schedPublishEvent_cases grp s k eventId tid full
  · rw [heq]
    exact hs
  · rw [heq]
    exact hs.enqueue hk he hacc

/-! ### A priority is set -/

theorem Inv.setPri (hs : Inv procPriNum grp s) {pri : ℕ → ℕ} {eventPri : ℕ → ℕ → ℕ}
    (hpri : ∀ pid, pri pid < procPriNum)
    (heventPri : ∀ pid eventId, eventPri pid eventId < SCHED_MAX_EVENT_PRI_NUM)
    (hsame : ∀ q, s.Has q →
      eventList grp { s with pri, eventPri } q.event.grpId q.event.eventId =
        eventList grp s q.event.grpId q.event.eventId) :
    Inv procPriNum grp { s with pri, eventPri } where
  pri_lt := hpri
  eventPri_lt := heventPri
  inPlace p q hq := (hsame q ⟨p, hq⟩).trans (hs.inPlace p q hq)
  accepted := hs.accepted
  sorted := hs.sorted
  stamp_lt := hs.stamp_lt
  count := hs.count

theorem schedSetEventPriority_of_lt {pid pri : ℕ} (hpri : pri < SCHED_MAX_EVENT_PRI_NUM)
    (he : eventId < SCHED_MAX_EVENT_TYPE_NUM) :
    schedSetEventPriority s pid eventId pri =
      { s with
        eventPri :=
          Function.update s.eventPri pid (Function.update (s.eventPri pid) eventId pri) } := by
  rw [schedSetEventPriority, if_neg (not_le.mpr hpri), if_neg (not_le.mpr he)]

theorem Inv.setEventPriority (hs : Inv procPriNum grp s) {pid pri : ℕ}
    (hok : PriorityKept procPriNum grp s (.setEventPriority pid eventId pri)) :
    Inv procPriNum grp (schedSetEventPriority s pid eventId pri) := by
  rcases hok with hpri | he | rfl | hq
  · rwa [schedSetEventPriority, if_pos hpri]
  · rwa [schedSetEventPriority, if_pos he, ite_self]
  · rwa [schedSetEventPriority, Function.update_eq_self, Function.update_eq_self, ite_self,
      ite_self]
  rw [schedSetEventPriority]
  split
  · exact hs
  split
  · exact hs
  next hpri _ =>
  apply hs.setPri hs.pri_lt
  · intro pid' eventId'
    by_cases hp : pid' = pid
    · subst hp
      rw [Function.update_self, Function.update_apply]
      split
      · exact not_le.mp hpri
      · exact hs.eventPri_lt _ _
    · rw [Function.update_of_ne hp]
      exact hs.eventPri_lt _ _
  · intro q hhas
    have hsame : Function.update s.eventPri pid
        (Function.update (s.eventPri pid) eventId pri) q.event.pid q.event.eventId =
          s.eventPri q.event.pid q.event.eventId := by
      by_cases hp : q.event.pid = pid
      · have he : q.event.eventId ≠ eventId := fun he => hq q hhas ⟨hp, he⟩
        rw [← hp, Function.update_self, Function.update_of_ne he]
      · rw [Function.update_of_ne hp]
    rw [eventList, eventList]
    split
    · exact congrArg (Place.node _) hsame
    · exact congrArg (Place.grp _) hsame

theorem Inv.setProcessPriority (hs : Inv procPriNum grp s) {pid pri : ℕ}
    (hok : PriorityKept procPriNum grp s (.setProcessPriority pid pri)) :
    Inv procPriNum grp (schedSetProcessPriority procPriNum s pid pri) := by
  rcases hok with hpri | rfl | hq
  · rwa [schedSetProcessPriority, if_pos hpri]
  · rwa [schedSetProcessPriority, Function.update_eq_self, ite_self]
  rw [schedSetProcessPriority]
  split
  · exact hs
  next hpri =>
  refine hs.setPri (fun pid' => ?_) hs.eventPri_lt fun q hhas => ?_
  · rw [Function.update_apply]
    split
    · exact not_le.mp hpri
    · exact hs.pri_lt pid'
  · rw [eventList, eventList]
    split
    · next hcpu =>
        have hne : q.event.grpId.1 ≠ pid := hq q hhas hcpu
        rw [schedGetSchedEventList, schedGetSchedEventList]
        simp only [Function.update_of_ne hne]
    · rfl

theorem Inv.step (hs : Inv procPriNum grp s) {op : Op} (hok : PriorityKept procPriNum grp s op) :
    Inv procPriNum grp (step procPriNum grp s op) := by
  cases op with
  | publish k eventId tid full => exact hs.publish tid full
  | cpuWait procPri eventPri canHandle => exact hs.cpuWait canHandle
  | nonSchedWait k tid => exact hs.nonSchedWait tid 0
  | exact k eventId => exact hs.exact
  | setEventPriority pid eventId pri => exact hs.setEventPriority hok
  | setProcessPriority pid pri => exact hs.setProcessPriority hok

theorem Inv.of_reachIf
    (hs : (machine procPriNum grp).ReachIf (PriorityKept procPriNum grp) s) :
    Inv procPriNum grp s := by
  apply hs.invariant
  · rintro s ⟨defaultPri, depth, hpri, rfl⟩
    exact .init hpri depth
  · rintro s op t hinv hok hstep
    rw [← Option.some.inj hstep]
    exact hinv.step hok

/-! ## What a fetch finds -/

/-- Events of one kind wait in one list. -/
theorem Inv.mem_eventList (hs : Inv procPriNum grp s) (hq : s.Has q)
    (hmatch : schedIsSpecifiedEvent k eventId q.event = true) :
    q ∈ (s.list (eventList grp s k eventId)).head := by
  obtain ⟨p, hq⟩ := hq
  obtain ⟨rfl, rfl⟩ := of_decide_eq_true hmatch
  rwa [hs.inPlace p q hq]

/-- A counter is not 0 while an event waits. -/
theorem Inv.curEventNum_ne_zero (hs : Inv procPriNum grp s) (hq : q ∈ (s.list p).head) :
    s.curEventNum p.owner ≠ 0 := by
  have hp : p ∈ places procPriNum p.owner := hs.inPlace p q hq ▸ hs.mem_places _ _
  intro hzero
  rw [hs.count, Finset.sum_eq_zero_iff_of_nonneg fun _ _ => Int.natCast_nonneg _] at hzero
  have hlen := List.length_pos_of_mem hq
  have := hzero p hp
  omega

theorem takeFirst_none {isMatch : Queued → Bool} (h : schedTakeFirst isMatch l = none)
    (hq : q ∈ l.head) : isMatch q = false := by
  have := List.find?_eq_none.mp (Option.map_eq_none_iff.mp h) q hq
  exact Bool.not_eq_true _ ▸ this

/-- The event taken is the oldest that matches. -/
theorem takeFirst_oldest {isMatch : Queued → Bool} {eventList : SchedEventList Queued}
    (hsorted : eventList.head.Pairwise (·.stamp < ·.stamp))
    (h : schedTakeFirst isMatch eventList = some (q, l)) {q' : Queued}
    (hq' : q' ∈ eventList.head) (hmatch : isMatch q' = true) : q.stamp ≤ q'.stamp := by
  obtain ⟨_, hfind, heq⟩ := Option.map_eq_some_iff.mp h
  obtain ⟨rfl, -⟩ := Prod.mk.inj heq
  obtain ⟨-, before, after, hhead, hbefore⟩ := List.find?_eq_some_iff_append.mp hfind
  rw [hhead] at hq' hsorted
  rcases List.mem_append.mp hq' with hq' | hq'
  · have hno := hbefore q' hq'
    rw [hmatch] at hno
    cases hno
  rcases List.mem_cons.mp hq' with rfl | hq'
  · exact le_rfl
  · have hafter := (List.pairwise_append.mp hsorted).2.1
    exact (List.rel_of_pairwise_cons hafter hq').le

theorem Inv.finds (hs : Inv procPriNum grp s) (k : GrpId) (eventId : ℕ) :
    Finds grp s k eventId := by
  by_cases hacc : Accepted grp k eventId
  · rw [Finds, schedGetExactEvent_of_accepted hacc, ExactFetch.getSpecifiedEvent]
    split_ifs with hzero
    · intro q hq
      by_contra hmatch
      exact hs.curEventNum_ne_zero (hs.mem_eventList hq (Bool.not_eq_false _ ▸ hmatch)) hzero
    cases htake : schedTakeFirst (fun q => schedIsSpecifiedEvent k eventId q.event)
        (s.list (eventList grp s k eventId)) with
    | none =>
        intro q hq
        by_contra hmatch
        have hmatch : schedIsSpecifiedEvent k eventId q.event = true :=
          Bool.not_eq_false _ ▸ hmatch
        have hno := takeFirst_none htake (hs.mem_eventList hq hmatch)
        rw [hmatch] at hno
        cases hno
    | some found =>
        obtain ⟨q, l⟩ := found
        obtain ⟨hq, hmatch, -⟩ := mem_of_takeFirst htake
        exact ⟨⟨_, hq⟩, hmatch, fun q' hq' hmatch' =>
          takeFirst_oldest (hs.sorted _) htake (hs.mem_eventList hq' hmatch') hmatch'⟩
  · rw [Finds, schedGetExactEvent_of_not_accepted hacc]
    rintro q ⟨p, hq⟩
    by_contra hmatch
    obtain ⟨rfl, rfl⟩ := of_decide_eq_true (Bool.not_eq_false _ ▸ hmatch)
    exact hacc (hs.accepted p q hq)

/-- A fetch finds nothing once the list of its kind is another one. -/
theorem Inv.not_finds_of_moved (hs : Inv procPriNum grp s) (hq : s.Has q) {s' : State}
    (hlist : s'.list = s.list)
    (hmoved : eventList grp s' q.event.grpId q.event.eventId ≠
      eventList grp s q.event.grpId q.event.eventId) :
    ¬ Finds grp s' q.event.grpId q.event.eventId := by
  intro hfinds
  obtain ⟨p, hp⟩ := hq
  have hhas : s'.Has q := ⟨p, hlist ▸ hp⟩
  have hmatch : schedIsSpecifiedEvent q.event.grpId q.event.eventId q.event = true :=
    decide_eq_true ⟨rfl, rfl⟩
  have hempty : ∀ q' ∈ (s'.list (eventList grp s' q.event.grpId q.event.eventId)).head,
      schedIsSpecifiedEvent q.event.grpId q.event.eventId q'.event ≠ true := by
    intro q' hq' hmatch'
    obtain ⟨he, hk⟩ := of_decide_eq_true hmatch'
    rw [hlist] at hq'
    have hplace := hs.inPlace _ q' hq'
    rw [hk, he] at hplace
    exact hmoved hplace.symm
  rw [Finds, schedGetExactEvent_of_accepted (hs.accepted p q hp),
    ExactFetch.getSpecifiedEvent] at hfinds
  split_ifs at hfinds
  · exact absurd hmatch (Bool.eq_false_iff.mp (hfinds q hhas))
  cases htake : schedTakeFirst
      (fun q' => schedIsSpecifiedEvent q.event.grpId q.event.eventId q'.event)
      (s'.list (eventList grp s' q.event.grpId q.event.eventId)) with
  | none =>
      rw [htake] at hfinds
      exact absurd hmatch (Bool.eq_false_iff.mp (hfinds q hhas))
  | some found =>
      obtain ⟨hq', hmatch', -⟩ := mem_of_takeFirst htake
      exact hempty _ hq' hmatch'

theorem Inv.eventPriorityKept (hs : Inv procPriNum grp s) {pid pri : ℕ}
    (h : ∀ k eventId', Finds grp (schedSetEventPriority s pid eventId pri) k eventId') :
    PriorityKept procPriNum grp s (.setEventPriority pid eventId pri) := by
  by_contra hnot
  rw [PriorityKept] at hnot
  push Not at hnot
  obtain ⟨hbound, hid, hpri, q, hhas, rfl, rfl⟩ := hnot
  rw [schedSetEventPriority_of_lt hbound hid] at h
  refine absurd (h q.event.grpId q.event.eventId) (hs.not_finds_of_moved hhas rfl ?_)
  intro hsame
  have hnew : Function.update s.eventPri q.event.pid
      (Function.update (s.eventPri q.event.pid) q.event.eventId pri) q.event.pid
        q.event.eventId = pri := by
    rw [Function.update_self, Function.update_self]
  rw [eventList, eventList] at hsame
  split_ifs at hsame
  · exact hpri ((Place.node.inj hsame).2.symm.trans hnew)
  · exact hpri ((Place.grp.inj hsame).2.symm.trans hnew)

theorem Inv.processPriorityKept (hs : Inv procPriNum grp s) {pid pri : ℕ}
    (h : ∀ k eventId, Finds grp (schedSetProcessPriority procPriNum s pid pri) k eventId) :
    PriorityKept procPriNum grp s (.setProcessPriority pid pri) := by
  by_contra hnot
  rw [PriorityKept] at hnot
  push Not at hnot
  obtain ⟨hbound, hpri, q, hhas, hcpu, rfl⟩ := hnot
  rw [schedSetProcessPriority, if_neg (not_le.mpr hbound)] at h
  refine absurd (h q.event.grpId q.event.eventId) (hs.not_finds_of_moved hhas rfl ?_)
  rw [eventList, eventList, if_pos hcpu, if_pos hcpu]
  intro hsame
  have hnew : Function.update s.pri q.event.pid pri q.event.pid = s.pri q.event.pid :=
    (Place.node.inj hsame).1
  rw [Function.update_self] at hnew
  exact hpri hnew.symm

/-- As long as the priorities of waiting events are kept, a fetch finds the oldest event
of its kind; the first change of such a priority hides an event. -/
theorem fetch_finds (hs : (machine procPriNum grp).ReachIf (PriorityKept procPriNum grp) s) :
    (∀ k eventId, Finds grp s k eventId) ∧
      ∀ op, (∀ k eventId, Finds grp (step procPriNum grp s op) k eventId) ↔
        PriorityKept procPriNum grp s op := by
  have hinv := Inv.of_reachIf hs
  refine ⟨hinv.finds, fun op => ⟨fun h => ?_, fun hok => (hinv.step hok).finds⟩⟩
  cases op with
  | publish => trivial
  | cpuWait => trivial
  | nonSchedWait => trivial
  | exact => trivial
  | setEventPriority pid eventId pri => exact hinv.eventPriorityKept h
  | setProcessPriority pid pri => exact hinv.processPriorityKept h

/-- A scheduled group whose thread 0 subscribes event 5. -/
def boundThread : SchedGrpCtx :=
  grpMachine.final zeroGrpCtx
    [.addGrp .bindDpCpu 1 true, .subscribe 0 32, .wait 0 (some 1) 100 false]

def empty : State := initState 0 4

theorem fetch_finds_published :
    let s := (machine 2 fun _ => boundThread).final empty
      [.publish (7, 0) 5 none false, .publish (7, 0) 5 none false]
    (schedGetExactEvent (fun _ => boundThread) s (7, 0) 5).1 = some ⟨⟨7, 0, 5, none⟩, 0⟩ ∧
      ∀ k eventId, Finds (fun _ => boundThread) s k eventId := by
  intro s
  have hinit : (machine 2 fun _ => boundThread).init empty := ⟨0, 4, by decide, rfl⟩
  have hs : (machine 2 fun _ => boundThread).ReachIf (PriorityKept 2 fun _ => boundThread) s := by
    apply Machine.ReachIf.final (.start hinit) _ rfl
    exact ⟨trivial, fun _ _ => ⟨trivial, fun _ _ => trivial⟩⟩
  exact ⟨by decide +kernel, (fetch_finds hs).1⟩

/-- An event is published, and the priority of its id is set: the event waits and is not
found. -/
theorem fetch_misses :
    let s := (machine 2 fun _ => boundThread).final empty
      [.publish (7, 0) 5 none false, .setEventPriority 7 5 0]
    (machine 2 fun _ => boundThread).Reach s ∧ s.Has ⟨⟨7, 0, 5, none⟩, 0⟩ ∧
      (schedGetExactEvent (fun _ => boundThread) s (7, 0) 5).1 = none := by
  have hinit : (machine 2 fun _ => boundThread).init empty := ⟨0, 4, by decide, rfl⟩
  refine ⟨Machine.Reach.final (.start hinit) rfl, ⟨.node 0 1, ?_⟩, ?_⟩
  · decide +kernel
  · decide +kernel

end OpiaiKernel.Esched.ExactFetch
