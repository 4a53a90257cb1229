import OpiaiKernel.Esched.GroupMap
import OpiaiKernel.Esched.Event

/-!
# Waiting in a group that is not scheduled

A publisher adds its event to a list of the group and wakes the first subscribed thread
that is idle.  A thread sets itself idle, searches the lists, sleeps until it is ready or
its time is over, and searches again.

The functions are translated from `esched.c`.  Every access to the status of a thread and
every section under the lock of a list is a step of its own.  The registered threads and
their subscriptions do not change.
-/

namespace OpiaiKernel.Esched

def SCHED_MAX_EVENT_PRI_NUM : ℕ := 3

/-- Where a thread is in `sched_wait_non_sched_event`.  It is `woken` when the wait returned
0 and `late` after a timeout. -/
inductive WaitPoint
  | out
  | entered
  | idling
  | search (pri : ℕ)
  | asleep
  | woken (pri : ℕ)
  | again
  | late (pri : ℕ)
  | took (event : SchedEvent)
  deriving DecidableEq

/-- Where a publisher is in `sched_publish_event_to_non_sched_grp`: before the list, at an
entry of the thread map, or before the exchange of the status of a thread. -/
inductive PublishPoint
  | adding
  | walk (i : ℕ)
  | wake (tid : ℕ)
  deriving DecidableEq

structure NonSchedPublish where
  event : SchedEvent
  pri : ℕ
  point : PublishPoint
  deriving DecidableEq

/-- The lists of the group by priority, and for each thread its status, its place in the
wait and whether the wait is one that does not sleep. -/
structure NonSchedState where
  list : ℕ → SchedEventList SchedEvent
  status : ℕ → ThreadStatus
  point : ℕ → WaitPoint
  noWait : ℕ → Bool
  publishes : List NonSchedPublish

inductive NonSchedAct
  | wait (tid : ℕ) (noWait : Bool)
  | thread (tid : ℕ)
  | timeout (tid : ℕ)
  | publish (event : SchedEvent) (pri : ℕ)
  | publisher (p : NonSchedPublish)
  deriving DecidableEq

namespace NonSchedState

def goTo (s : NonSchedState) (tid : ℕ) (point : WaitPoint) : NonSchedState :=
  { s with point := Function.update s.point tid point }

def setStatus (s : NonSchedState) (tid : ℕ) (status : ThreadStatus) : NonSchedState :=
  { s with status := Function.update s.status tid status }

def setList (s : NonSchedState) (pri : ℕ) (l : SchedEventList SchedEvent) : NonSchedState :=
  { s with list := Function.update s.list pri l }

def schedWakeUpThread (s : NonSchedState) (tid : ℕ) : NonSchedState :=
  if s.status tid = .idle then s.setStatus tid .ready else s

/-- The publish goes on at `point`, or returns. -/
def publishAt (s : NonSchedState) (p : NonSchedPublish) (point : Option PublishPoint) :
    NonSchedState :=
  { s with
    publishes := (point.map fun point => { p with point }).toList ++ s.publishes.erase p }

end NonSchedState

variable (grp : SchedGrpCtx)

def schedSearchNonSchedEvent (eventList : SchedEventList SchedEvent) (tid : ℕ) :
    Option (SchedEvent × SchedEventList SchedEvent) :=
  schedTakeFirst (schedThreadCanHandleEvent (grp.threadCtx tid)) eventList

/-- One round of the loop of `sched_get_next_non_sched_event`, and what follows the loop. -/
def searchRound (s : NonSchedState) (tid pri : ℕ) (next done : WaitPoint) : NonSchedState :=
  if pri < SCHED_MAX_EVENT_PRI_NUM then
    match schedSearchNonSchedEvent grp (s.list pri) tid with
    | none => s.goTo tid next
    | some (event, l) => (s.setList pri l).goTo tid (.took event)
  else s.goTo tid done

def schedWaitNonSchedEvent (s : NonSchedState) (tid : ℕ) : Option NonSchedState :=
  match s.point tid with
  | .out => none
  | .entered => some (s.goTo tid (if s.status tid = .run then .idling else .search 0))
  | .idling | .again => some ((s.setStatus tid .idle).goTo tid (.search 0))
  | .search pri => some (searchRound grp s tid pri (.search (pri + 1)) .asleep)
  | .asleep =>
      if s.status tid = .ready then some (s.goTo tid (.woken 0))
      else if s.noWait tid = true then some (s.goTo tid .out)
      else none
  | .woken pri => some (searchRound grp s tid pri (.woken (pri + 1)) .again)
  | .late pri => some (searchRound grp s tid pri (.late (pri + 1)) .out)
  | .took _ => some ((s.setStatus tid .run).goTo tid .out)

def schedPublishEventToNonSchedGrp (s : NonSchedState) (p : NonSchedPublish) : NonSchedState :=
  match p.point with
  | .adding =>
      match schedEventAddTail (s.list p.pri) p.event with
      | none => s.publishAt p none
      | some l => (s.setList p.pri l).publishAt p (some (.walk 0))
  | .walk i =>
      match (schedGetEventThreadMap grp p.event)[i]? with
      | none => s.publishAt p none
      | some tid => s.publishAt p
          (some (if s.status tid = .idle then .wake tid else .walk (i + 1)))
  | .wake tid => (s.schedWakeUpThread tid).publishAt p none

/-- A publish that finds no subscribed thread or that the quota refuses changes nothing
here, and is not a step. -/
def nonSchedStep (s : NonSchedState) : NonSchedAct → Option NonSchedState
  | .wait tid noWait =>
      if tid ∈ grp.thread ∧ s.point tid = .out then
        some ({ s with noWait := Function.update s.noWait tid noWait }.goTo tid .entered)
      else none
  | .thread tid => schedWaitNonSchedEvent grp s tid
  | .timeout tid =>
      if s.point tid = .asleep ∧ s.status tid ≠ .ready ∧ s.noWait tid = false then
        some (s.goTo tid (.late 0))
      else none
  | .publish event pri =>
      if schedGrpCanHandleEvent grp event = true ∧ pri < SCHED_MAX_EVENT_PRI_NUM then
        some { s with publishes := ⟨event, pri, .adding⟩ :: s.publishes }
      else none
  | .publisher p =>
      if p ∈ s.publishes then some (schedPublishEventToNonSchedGrp grp s p) else none

/-- The lists are empty and nobody is in a call. -/
def nonSchedMachine : Machine NonSchedState NonSchedAct where
  init s := (∀ pri, (s.list pri).head = []) ∧ (∀ tid, s.point tid = .out) ∧ s.publishes = []
  step := nonSchedStep grp

end OpiaiKernel.Esched
