import OpiaiKernel.Esched.Group

/-!
# Published events

An event waits in a list until a thread of its group takes it.  The events of
scheduled groups wait in the lists of the node and are taken by a cpu for the
thread that is bound to it; those of a group that is not scheduled wait in the
lists of the group.  A running thread may also fetch one exact event id.

The functions are translated from `esched.c`.  A list is searched under its
lock.  Times are in milliseconds.
-/

namespace OpiaiKernel.Esched

def SCHED_SEARCH_MAX_CNT : ℕ := 128

def SCHED_GROUP_DROP_EVENT_TIMEOUT : ℕ := 1000

/-- A group by its process and its number. -/
abbrev GrpId := ℕ × ℕ

/-- `struct sched_event`. -/
structure SchedEvent where
  pid : ℕ
  gid : ℕ
  eventId : ℕ
  eventThreadMap : Option (List ℕ)
  deriving DecidableEq

def SchedEvent.grpId (event : SchedEvent) : GrpId := (event.pid, event.gid)

/-- `struct sched_event_list`. -/
structure SchedEventList (α : Type*) where
  depth : ℕ
  curNum : ℕ
  head : List α
  deriving DecidableEq

/-- The state of an exclusive group. -/
inductive RunStatus
  | idle
  | run
  deriving DecidableEq

/-! ## Lists -/

section List

variable {α σ : Type*}

/-- `none` when the list is full. -/
def schedEventAddTail (eventList : SchedEventList α) (event : α) : Option (SchedEventList α) :=
  if eventList.curNum < eventList.depth then
    some { eventList with curNum := eventList.curNum + 1, head := eventList.head ++ [event] }
  else none

/-- The loop of `sched_event_search`.  The test of an event may change the
state of its group. -/
def schedSearch (canHandle : σ → α → Bool × σ) : ℕ → σ → List α → Option α × List α × σ
  | 0, st, events => (none, events, st)
  | _, st, [] => (none, [], st)
  | cnt + 1, st, event :: events =>
      match canHandle st event with
      | (true, st) => (some event, events, st)
      | (false, st) =>
          let (found, rest, st) := schedSearch canHandle cnt st events
          (found, event :: rest, st)

def schedEventSearch (canHandle : σ → α → Bool × σ) (st : σ) (eventList : SchedEventList α) :
    Option α × SchedEventList α × σ :=
  match schedSearch canHandle SCHED_SEARCH_MAX_CNT st eventList.head with
  | (none, _, st) => (none, eventList, st)
  | (some event, head, st) =>
      (some event, { eventList with curNum := eventList.curNum - 1, head }, st)

/-- The first event that matches is taken. -/
def schedTakeFirst (isMatch : α → Bool) (eventList : SchedEventList α) :
    Option (α × SchedEventList α) :=
  (eventList.head.find? isMatch).map fun event =>
    (event, { eventList with
      curNum := eventList.curNum - 1, head := eventList.head.eraseP isMatch })

end List

/-! ## Who may take an event -/

def schedEventAddThread (event : SchedEvent) (tid : ℕ) : SchedEvent :=
  { event with eventThreadMap := some [tid] }

def schedGetEventThreadMap (grp : SchedGrpCtx) (event : SchedEvent) : List ℕ :=
  event.eventThreadMap.getD (grp.eventThreadMap event.eventId)

def schedGrpCanHandleEvent (grp : SchedGrpCtx) (event : SchedEvent) : Bool :=
  !(grp.eventThreadMap event.eventId).isEmpty &&
    match event.eventThreadMap with
    | none => true
    | some map => map.all fun tid => (grp.eventThreadMap event.eventId).contains tid

def schedThreadCanHandleEvent (thread : SchedThreadCtx) (event : SchedEvent) : Bool :=
  thread.subscribeEventBitmap.getLsbD event.eventId &&
    match event.eventThreadMap with
    | none => true
    | some map => map.contains thread.tid

def schedIsGrpEventTimeout (info : SchedEventTimeoutInfo) (curTime : ℕ) : Bool :=
  info.timeoutFlag &&
    decide (SCHED_GROUP_DROP_EVENT_TIMEOUT ≤ curTime - info.timeoutTimestamp)

/-- An event whose group has timed out, or whose process exits, is taken in
order to be dropped. -/
def schedIsCpuHandleEvent (grp : SchedGrpCtx) (procValid : Bool) (event : SchedEvent)
    (cpuid curTime : ℕ) : Bool :=
  match (schedGetEventThreadMap grp event).find? fun tid =>
      (grp.threadCtx tid).bindCpuid = cpuid with
  | none => false
  | some tid =>
      if schedIsGrpEventTimeout (grp.eventTimeoutInfo event.eventId) curTime = true ∨
          procValid = false then true
      else if (grp.threadCtx tid).timeoutFlag = true then false
      else (grp.threadCtx tid).waitFlag

/-- The event is left where it is when an exclusive group runs. -/
def schedIsEventCanHandle (grp : SchedGrpCtx) (procValid : Bool) (runStatus : RunStatus)
    (event : SchedEvent) (cpuid curTime : ℕ) : Bool × RunStatus :=
  if grp.isExclusive = false then
    (schedIsCpuHandleEvent grp procValid event cpuid curTime, runStatus)
  else if runStatus = .run then (false, .run)
  else if schedIsCpuHandleEvent grp procValid event cpuid curTime = true then (true, .run)
  else (false, .idle)

/-- What `sched_get_specified_event` looks for. -/
def schedIsSpecifiedEvent (k : GrpId) (eventId : ℕ) (event : SchedEvent) : Bool :=
  event.eventId = eventId ∧ event.grpId = k

/-! ## Facts about the lists -/

section Facts

variable {α σ : Type*} {eventList eventList' : SchedEventList α} {event : α}

theorem mem_of_addTail (h : schedEventAddTail eventList event = some eventList') {a : α} :
    a ∈ eventList'.head ↔ a ∈ eventList.head ∨ a = event := by
  simp only [schedEventAddTail, Option.ite_none_right_eq_some, Option.some.injEq] at h
  obtain ⟨-, rfl⟩ := h
  simp

theorem mem_of_takeFirst {isMatch : α → Bool}
    (h : schedTakeFirst isMatch eventList = some (event, eventList')) :
    event ∈ eventList.head ∧ isMatch event = true ∧ ∀ a ∈ eventList'.head, a ∈ eventList.head := by
  obtain ⟨a, hfind, heq⟩ := Option.map_eq_some_iff.mp h
  obtain ⟨rfl, rfl⟩ := Prod.mk.inj heq
  exact ⟨List.mem_of_find?_eq_some hfind, List.find?_some hfind, fun b => List.mem_of_mem_eraseP⟩

/-- The event found is one that the test accepts, and the others stay. -/
theorem schedSearch_some {canHandle : σ → α → Bool × σ} {cnt : ℕ} {st st' : σ}
    {events rest : List α} (h : schedSearch canHandle cnt st events = (some event, rest, st')) :
    (∃ l r, events = l ++ event :: r ∧ rest = l ++ r) ∧
      ∃ st₀, canHandle st₀ event = (true, st') := by
  induction cnt generalizing st events rest with
  | zero => simp [schedSearch] at h
  | succ cnt ih =>
      cases events with
      | nil => simp [schedSearch] at h
      | cons a events =>
          simp only [schedSearch] at h
          split at h
          · next st₁ hcan =>
              simp only [Prod.mk.injEq, Option.some.injEq] at h
              obtain ⟨rfl, rfl, rfl⟩ := h
              exact ⟨⟨[], events, rfl, rfl⟩, st, hcan⟩
          · next st₁ hcan =>
              simp only [Prod.mk.injEq] at h
              obtain ⟨hfound, rfl, hst⟩ := h
              obtain ⟨⟨l, r, rfl, hrest⟩, hlast⟩ :=
                ih (Prod.ext hfound (Prod.ext rfl hst))
              exact ⟨⟨a :: l, r, rfl, congrArg (a :: ·) hrest⟩, hlast⟩

theorem mem_of_eventSearch {canHandle : σ → α → Bool × σ} {st st' : σ}
    (h : schedEventSearch canHandle st eventList = (some event, eventList', st')) :
    event ∈ eventList.head ∧ (∀ a ∈ eventList'.head, a ∈ eventList.head) ∧
      ∃ st₀, canHandle st₀ event = (true, st') := by
  unfold schedEventSearch at h
  split at h
  · cases h
  · next found head st₁ hsearch =>
      simp only [Prod.mk.injEq, Option.some.injEq] at h
      obtain ⟨rfl, rfl, rfl⟩ := h
      obtain ⟨⟨l, r, hl, hr⟩, hlast⟩ := schedSearch_some hsearch
      rw [hl, hr]
      refine ⟨by simp, fun a ha => ?_, hlast⟩
      rcases List.mem_append.mp ha with ha | ha <;> simp [ha]

end Facts

end OpiaiKernel.Esched
