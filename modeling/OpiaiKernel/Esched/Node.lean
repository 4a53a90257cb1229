import Mathlib.Data.Int.Notation
import OpiaiKernel.Esched.Event

/-!
# The event scheduler of a node

The events of a node are preallocated.  An event leaves its free queue when it
is published, waits in a list, is handed to a thread, and goes back to its queue
when the thread finishes it.  On the way it is in the hands of a call: of a
publisher, of the search of a cpu, or of a call that finishes it.

The functions are translated from `esched.c` and cut at their locks, so that a
step is a section under one lock with the code around it that touches nothing
shared.  A call that is under way is an entry of `calls`; which of them goes on
is the label of the step.  The searches that a publisher, a finishing thread or
the periodic work start on an idle cpu are calls of their own.

A process is deleted for good: a pid is not used again.
-/

namespace OpiaiKernel.Esched

inductive QueId
  | cpu (cpuid : ℕ)
  | node
  deriving DecidableEq

inductive ListId
  | sched (procPri eventPri : ℕ)
  | nonSched (k : GrpId) (eventPri : ℕ)
  deriving DecidableEq

/-- A thread by its group and its number. -/
abbrev ThreadId := GrpId × ℕ

/-- `struct sched_event_que`. -/
structure SchedEventQue where
  depth : ℕ
  ring : List ℕ
  deriving DecidableEq

/-- Why the event of a thread is finished. -/
inductive Finish
  | wait (cpuid : ℕ)
  | timeout (cpuid timestamp : ℕ)
  | exit (cpuid : ℕ)
  deriving DecidableEq

/-- A call under way.  A search on a cpu is owned by the thread that waits on
the cpu, or runs under the lock of the idle cpu. -/
inductive Call
  | publish (event : SchedEvent)
  | alloced (event : SchedEvent) (o : ℕ)
  | checked (k : GrpId) (o : ℕ)
  | refused (k : GrpId) (o : ℕ)
  | adding (k : GrpId) (o : ℕ)
  | added (k : GrpId)
  | failed (k : GrpId) (o : ℕ)
  | search (cpuid : ℕ) (owner : Option ThreadId)
  | took (cpuid : ℕ) (owner : Option ThreadId) (o : ℕ)
  | found (cpuid : ℕ) (owner : Option ThreadId) (thread : ThreadId)
  | finish (thread : ThreadId) (why : Finish) (o : ℕ)
  | entered (thread : ThreadId) (cpuid : ℕ)
  | sleeping (thread : ThreadId) (cpuid : ℕ)
  | woken (thread : ThreadId) (cpuid : ℕ)
  | exact (thread : ThreadId) (o old : ℕ)
  deriving DecidableEq

/-- A publish that the quota refused: the events outstanding then, and the
quota. -/
structure Refusal where
  k : GrpId
  eventId : ℕ
  outstanding : ℕ
  maxEventNum : ℕ
  deriving DecidableEq

/-- `accepted` and `refusals` record what the quota decided: the group and the
id under which an event counts, and the refused publishes. -/
structure SchedNode where
  obj : ℕ → SchedEvent
  que : QueId → SchedEventQue
  list : ListId → SchedEventList ℕ
  curEventNum : ℤ
  grp : GrpId → SchedGrpCtx
  runStatus : GrpId → RunStatus
  eventNum : GrpId → ℕ → ℤ
  maxEventNum : GrpId → ℕ → ℕ
  grpEventNum : GrpId → ℤ
  slot : ThreadId → Option ℕ
  cur : ℕ → Option ThreadId
  gone : ℕ → Bool
  calls : List Call
  accepted : ℕ → Option (GrpId × ℕ)
  refusals : List Refusal

/-- What a node has: its events with their queues, its cpus, and the sizes of
its tables. -/
structure NodeCfg where
  eventNum : ℕ
  que : ℕ → QueId
  cpus : List ℕ
  depth : ListId → ℕ
  procPriNum : ℕ
  eventPriNum : ℕ
  grpNum : ℕ

/-! ## What a call holds -/

namespace Call

/-- The events in the hands of the call.  An event that is being finished stays
in the slot of its thread until it is given back. -/
def hands : Call → List ℕ
  | .alloced _ o | .checked _ o | .refused _ o | .adding _ o | .failed _ o => [o]
  | .took _ _ o | .exact _ o _ => [o]
  | _ => []

/-- The call holds the mutex of the thread. -/
def locks (thread : ThreadId) : Call → Bool
  | .search _ owner | .took _ owner _ | .found _ owner _ => owner = some thread
  | .finish t .. | .entered t _ => t = thread
  | _ => false

/-- The call searches for the cpu. -/
def selects (cpuid : ℕ) : Call → Bool
  | .search c _ | .took c _ _ | .found c _ _ => c = cpuid
  | _ => false

def isExact (thread : ThreadId) : Call → Bool
  | .exact t _ _ => t = thread
  | _ => false

/-- The call holds a reference to the process. -/
def holdsProc (pid : ℕ) : Call → Bool
  | .publish event | .alloced event _ => event.pid = pid
  | .checked k _ | .refused k _ | .adding k _ | .added k | .failed k _ => k.1 = pid
  | .search _ owner | .took _ owner _ => owner.any fun t => t.1.1 = pid
  | .found _ owner t => t.1.1 = pid || owner.any fun t => t.1.1 = pid
  | .finish t .. | .entered t _ | .sleeping t _ | .woken t _ | .exact t _ _ => t.1.1 = pid

end Call

namespace SchedNode

variable (s : SchedNode)

def hands : List ℕ := s.calls.flatMap Call.hands

def thread (t : ThreadId) : SchedThreadCtx := (s.grp t.1).threadCtx t.2

def mode (k : GrpId) : SchedMode := (s.grp k).schedMode

def setGrp (k : GrpId) (grp : SchedGrpCtx) : SchedNode :=
  { s with grp := Function.update s.grp k grp }

def setThread (t : ThreadId) (f : SchedThreadCtx → SchedThreadCtx) : SchedNode :=
  s.setGrp t.1 (setThreadCtx (s.grp t.1) t.2 (f (s.thread t)))

def setStatus (t : ThreadId) (status : ThreadStatus) : SchedNode :=
  s.setThread t ({ · with status })

def setWaitFlag (t : ThreadId) (waitFlag : Bool) : SchedNode :=
  s.setThread t ({ · with waitFlag })

def setList (l : ListId) (eventList : SchedEventList ℕ) : SchedNode :=
  { s with list := Function.update s.list l eventList }

def setSlot (t : ThreadId) (o : Option ℕ) : SchedNode :=
  { s with slot := Function.update s.slot t o }

def setCur (cpuid : ℕ) (t : Option ThreadId) : SchedNode :=
  { s with cur := Function.update s.cur cpuid t }

/-- The call goes on as these calls. -/
def become (c : Call) (next : List Call) : SchedNode :=
  { s with calls := next ++ s.calls.erase c }

section Become

variable (c : Call) (next : List Call)

@[simp] theorem become_obj : (s.become c next).obj = s.obj := rfl
@[simp] theorem become_que : (s.become c next).que = s.que := rfl
@[simp] theorem become_list : (s.become c next).list = s.list := rfl
@[simp] theorem become_curEventNum : (s.become c next).curEventNum = s.curEventNum := rfl
@[simp] theorem become_grp : (s.become c next).grp = s.grp := rfl
@[simp] theorem become_runStatus : (s.become c next).runStatus = s.runStatus := rfl
@[simp] theorem become_eventNum : (s.become c next).eventNum = s.eventNum := rfl
@[simp] theorem become_grpEventNum : (s.become c next).grpEventNum = s.grpEventNum := rfl
@[simp] theorem become_slot : (s.become c next).slot = s.slot := rfl
@[simp] theorem become_gone : (s.become c next).gone = s.gone := rfl
@[simp] theorem become_accepted : (s.become c next).accepted = s.accepted := rfl

end Become

/-- No call holds the mutex of the thread. -/
def mutexFree (t : ThreadId) : Prop := s.calls.all (fun c => !c.locks t) = true

instance (t : ThreadId) : Decidable (s.mutexFree t) :=
  inferInstanceAs (Decidable (_ = true))

end SchedNode

/-! ## Queues -/

/-- `sched_event_enque`: a full queue rejects the event. -/
def schedEventEnque (que : SchedEventQue) (o : ℕ) : SchedEventQue :=
  if que.ring.length = que.depth then que else { que with ring := que.ring ++ [o] }

/-- The event loses its thread map and goes back to its queue. -/
def schedEventEnqueLock (cfg : NodeCfg) (s : SchedNode) (o : ℕ) : SchedNode :=
  { s with
    obj := Function.update s.obj o { s.obj o with eventThreadMap := none }
    que := Function.update s.que (cfg.que o) (schedEventEnque (s.que (cfg.que o)) o)
    accepted := Function.update s.accepted o none }

/-- `sched_free_thread_event`. -/
def schedFreeThreadEvent (cfg : NodeCfg) (s : SchedNode) (t : ThreadId) (o : ℕ) : SchedNode :=
  let eventId := (s.obj o).eventId
  let num := Function.update (s.eventNum t.1) eventId (s.eventNum t.1 eventId - 1)
  schedEventEnqueLock cfg ({ s with eventNum := Function.update s.eventNum t.1 num }.setSlot t none)
    o

/-- The part of `sched_exclusive_grp_finish` that releases the group. -/
def schedExclusiveGrpFinish (s : SchedNode) (k : GrpId) : SchedNode :=
  if (s.grp k).isExclusive = true then
    { s with runStatus := Function.update s.runStatus k .idle }
  else s

/-! ## Publishing -/

/-- `sched_publish_event` up to the allocation. -/
def schedPublishEvent (s : SchedNode) (k : GrpId) (eventId : ℕ) (tid : Option ℕ) : SchedNode :=
  let event : SchedEvent := ⟨k.1, k.2, eventId, none⟩
  if s.gone k.1 = true then s
  else if s.mode k = .uninit then s
  else if tid.any ((s.grp k).cfgThreadNum ≤ ·) = true then s
  else
    { s with calls := .publish (match tid with
        | none => event
        | some tid => schedEventAddThread event tid) :: s.calls }

/-- The queue of the cpu is tried first, then the one of the node; a try that
finds nothing leaves nothing behind. -/
def schedAllocEvent (s : SchedNode) (event : SchedEvent) (q : QueId) : Option SchedNode :=
  match (s.que q).ring with
  | [] => none
  | o :: ring =>
      some ({ s with que := Function.update s.que q { s.que q with ring } }.become
        (.publish event) [.alloced event o])

/-- The event is filled and its group is looked at; `ok` is whether the message
could be copied. -/
def schedPublishFillEvent (s : SchedNode) (event : SchedEvent) (o : ℕ) (ok : Bool) : SchedNode :=
  let k := event.grpId
  let filled := { s with obj := Function.update s.obj o event }
  if ok = false then s.become (.alloced event o) [.failed k o]
  else if s.mode k = .schedCpu ∧
      ((s.grp k).eventTimeoutInfo event.eventId).timeoutFlag = true then
    filled.become (.alloced event o) [.failed k o]
  else if schedGrpCanHandleEvent (s.grp k) event = false then
    filled.become (.alloced event o) [.failed k o]
  else filled.become (.alloced event o) [.checked k o]

/-- The events of the id that the group has accepted and not finished. -/
def outstanding (cfg : NodeCfg) (s : SchedNode) (k : GrpId) (eventId : ℕ) : ℕ :=
  (List.range cfg.eventNum).countP fun o => s.accepted o = some (k, eventId)

/-- `sched_grp_event_num_update` up to the test of the quota; `self` is whether
a thread of the group publishes. -/
def schedGrpEventNumRaise (cfg : NodeCfg) (s : SchedNode) (k : GrpId) (o : ℕ) (self : Bool) :
    SchedNode :=
  let eventId := (s.obj o).eventId
  let num := s.eventNum k eventId + 1
  let maxNum := s.maxEventNum k eventId
  let raised := { s with
    eventNum := Function.update s.eventNum k (Function.update (s.eventNum k) eventId num) }
  if (maxNum : ℤ) < num % 2 ^ 32 ∧ ¬ (num % 2 ^ 32 = maxNum + 1 ∧ self = true) then
    { raised.become (.checked k o) [.refused k o] with
      refusals := ⟨k, eventId, outstanding cfg s k eventId, maxNum⟩ :: s.refusals }
  else
    { raised.become (.checked k o) [.adding k o] with
      accepted := Function.update s.accepted o (some (k, eventId))
      grpEventNum := if s.mode k = .schedCpu then s.grpEventNum
        else Function.update s.grpEventNum k (s.grpEventNum k + 1) }

/-- A refused publish takes its count back. -/
def schedGrpEventNumLower (s : SchedNode) (k : GrpId) (o : ℕ) : SchedNode :=
  let eventId := (s.obj o).eventId
  { s.become (.refused k o) [.failed k o] with
    eventNum := Function.update s.eventNum k
      (Function.update (s.eventNum k) eventId (s.eventNum k eventId - 1)) }

/-- The list of the group, or the one of the node. -/
def publishList (s : SchedNode) (k : GrpId) (procPri eventPri : ℕ) : ListId :=
  if s.mode k = .schedCpu then .sched procPri eventPri else .nonSched k eventPri

/-- The event is queued.  When the list is full the publish fails, and the count
of the event id stays raised. -/
def schedPublishAdd (s : SchedNode) (k : GrpId) (o procPri eventPri : ℕ) : SchedNode :=
  let l := publishList s k procPri eventPri
  match schedEventAddTail (s.list l) o with
  | none =>
      { s.become (.adding k o) [.failed k o] with
        accepted := Function.update s.accepted o none
        grpEventNum := if s.mode k = .schedCpu then s.grpEventNum
          else Function.update s.grpEventNum k (s.grpEventNum k - 1) }
  | some eventList =>
      (s.setList l eventList).become (.adding k o)
        (if s.mode k = .schedCpu then [.added k] else [])

/-- The wake-up of a thread that is not scheduled. -/
def schedWakeupNonSchedGrp (s : SchedNode) (t : ThreadId) : SchedNode :=
  if (s.thread t).status = .idle then s.setStatus t .ready else s

/-! ## The search of a cpu -/

def schedWakeUpThread (s : SchedNode) (t : ThreadId) : SchedNode :=
  if (s.thread t).status = .idle then s.setStatus t .ready
  else s.setCur (s.thread t).bindCpuid none

/-- The events of a process that is gone are taken in order to be dropped. -/
def nodeCanHandle (s : SchedNode) (cpuid curTime : ℕ) (runStatus : GrpId → RunStatus) (o : ℕ) :
    Bool × (GrpId → RunStatus) :=
  let event := s.obj o
  let k := event.grpId
  if s.gone event.pid = true then (true, runStatus)
  else
    let (handle, status) := schedIsEventCanHandle (s.grp k) true (runStatus k) event cpuid curTime
    (handle, Function.update runStatus k status)

def schedSearchList (s : SchedNode) (cpuid : ℕ) (owner : Option ThreadId)
    (procPri eventPri curTime : ℕ) : SchedNode :=
  match schedEventSearch (nodeCanHandle s cpuid curTime) s.runStatus
      (s.list (.sched procPri eventPri)) with
  | (none, _, runStatus) => { s with runStatus }
  | (some o, eventList, runStatus) =>
      { (s.setList (.sched procPri eventPri) eventList).become (.search cpuid owner)
          [.took cpuid owner o] with
        runStatus
        curEventNum := s.curEventNum - 1 }

/-- The event is dropped when its process is gone, discarded when its thread has
timed out, and else put into the slot of its thread. -/
def schedHandEvent (cfg : NodeCfg) (s : SchedNode) (cpuid : ℕ) (owner : Option ThreadId) (o : ℕ) :
    SchedNode :=
  let k := (s.obj o).grpId
  let t := (k, (s.grp k).cpuidToTid cpuid)
  if s.gone k.1 = true then
    (schedEventEnqueLock cfg s o).become (.took cpuid owner o) [.search cpuid owner]
  else if (s.thread t).timeoutFlag = true then
    schedExclusiveGrpFinish
      ((schedFreeThreadEvent cfg s t o).become (.took cpuid owner o) [.search cpuid owner]) k
  else (s.setSlot t (some o)).become (.took cpuid owner o) [.found cpuid owner t]

/-- The thread that was found becomes the current one of the cpu. -/
def schedWakeupNextThread (s : SchedNode) (cpuid : ℕ) (owner : Option ThreadId) (t : ThreadId) :
    SchedNode :=
  match owner with
  | none => schedWakeUpThread ((s.setCur cpuid (some t)).become (.found cpuid none t) []) t
  | some cur =>
      let s := s.become (.found cpuid (some cur) t) [.sleeping cur cpuid]
      if t = cur then s.setStatus cur .ready
      else schedWakeUpThread ((s.setStatus cur .idle).setCur cpuid (some t)) t

/-- The search ends without an event, and the cpu of a waiting thread gets
idle. -/
def schedCpuToIdle (s : SchedNode) (cpuid : ℕ) (owner : Option ThreadId) : SchedNode :=
  match owner with
  | none => s.become (.search cpuid none) []
  | some cur =>
      ((s.become (.search cpuid (some cur)) [.sleeping cur cpuid]).setStatus cur .idle).setCur
        cpuid none

/-! ## Waiting -/

/-- The wait goes on after the last event is finished.  A thread that is not
scheduled stops running here. -/
def waitEnter (s : SchedNode) (t : ThreadId) (cpuid : ℕ) : SchedNode :=
  let s := { s with calls := .entered t cpuid :: s.calls }
  if s.mode t.1 = .nonSchedCpu ∧ (s.thread t).status = .run then s.setStatus t .idle else s

/-- The event of a running thread is taken in hand in order to be finished. -/
def finishBegin (s : SchedNode) (t : ThreadId) (why : Finish) (o : ℕ) : SchedNode :=
  schedExclusiveGrpFinish { s with calls := .finish t why o :: s.calls } t.1

/-- The group as `sched_check_thread_timeout` leaves it. -/
def threadTimedOut (grp : SchedGrpCtx) (tid timestamp : ℕ) : SchedGrpCtx :=
  schedCheckGroupTimeout
    (setThreadCtx grp tid { grp.threadCtx tid with
      timeoutDetected := true, timeoutFlag := true, status := .idle }) tid timestamp

/-- What follows the finish of an event. -/
def finishNext (s : SchedNode) (t : ThreadId) : Finish → SchedNode
  | .wait cpuid => waitEnter s t cpuid
  | .timeout cpuid timestamp =>
      (s.setGrp t.1 (threadTimedOut (s.grp t.1) t.2 timestamp)).setCur cpuid none
  | .exit cpuid => (s.setStatus t .idle).setCur cpuid none

def finishEnd (cfg : NodeCfg) (s : SchedNode) (t : ThreadId) (why : Finish) (o : ℕ) : SchedNode :=
  finishNext ((schedFreeThreadEvent cfg s t o).become (.finish t why o) []) t why

/-- `sched_thread_finish` under the mutex of the thread. -/
def threadFinish (s : SchedNode) (t : ThreadId) (why : Finish) : SchedNode :=
  match s.slot t with
  | none => finishNext s t why
  | some o => finishBegin s t why o

/-- `sched_wait_event` up to the search, for a wait on the cpu `cpuid`. -/
def schedWait (s : SchedNode) (t : ThreadId) (cpuid pid : ℕ) (swapout : Bool) : SchedNode :=
  let running := (s.thread t).valid = true ∧ (s.thread t).status = .run
  match schedWaitEvent (s.grp t.1) t.2 (some cpuid) pid swapout with
  | (.error _, grp) => s.setGrp t.1 grp
  | (.ok (), grp) =>
      if running then threadFinish (s.setGrp t.1 grp) t (.wait cpuid)
      else waitEnter (s.setGrp t.1 grp) t cpuid

/-- A thread that is not scheduled takes the first event it can handle. -/
def schedTakeNonSched (s : SchedNode) (t : ThreadId) (cpuid eventPri : ℕ) : SchedNode :=
  match schedTakeFirst (fun o => schedThreadCanHandleEvent (s.thread t) (s.obj o))
      (s.list (.nonSched t.1 eventPri)) with
  | none => s
  | some (o, eventList) =>
      ((({ s with grpEventNum := Function.update s.grpEventNum t.1 (s.grpEventNum t.1 - 1) }.setList
        (.nonSched t.1 eventPri) eventList).setSlot t (some o)).setThread t
          ({ · with status := .run, waitFlag := false })).become (.entered t cpuid) []

/-- A scheduled thread that was woken takes its event and runs. -/
def schedWaitReturnEvent (s : SchedNode) (t : ThreadId) (cpuid : ℕ) : SchedNode :=
  let s := s.become (.woken t cpuid) []
  match s.slot t with
  | some _ => s.setThread t ({ · with status := .run, waitFlag := false })
  | none => (s.setThread t ({ · with status := .idle, waitFlag := false })).setCur cpuid none

/-! ## Exact events -/

/-- `sched_get_exact_event` up to the finish of the old event.  The code reads
the old event without a test. -/
def schedGetExact (s : SchedNode) (t : ThreadId) (eventId cpuid procPri eventPri : ℕ) :
    Option SchedNode :=
  let k := t.1
  let l := publishList s k procPri eventPri
  if s.gone k.1 = true ∨ s.mode k = .uninit then some s
  else if (s.grp k).cfgThreadNum ≤ t.2 then some s
  else if (s.thread t).status ≠ .run then some s
  else if s.mode k = .schedCpu ∧ (s.cur cpuid ≠ some t ∨ s.curEventNum = 0) then some s
  else if s.mode k ≠ .schedCpu ∧ s.grpEventNum k = 0 then some s
  else
    match schedTakeFirst (fun o => schedIsSpecifiedEvent k eventId (s.obj o)) (s.list l) with
    | none => some s
    | some (o, eventList) =>
        (s.slot t).map fun old =>
          schedExclusiveGrpFinish { s.setList l eventList with
            curEventNum := if s.mode k = .schedCpu then s.curEventNum - 1 else s.curEventNum
            calls := .exact t o old :: s.calls } k

/-- The old event is given back and the new one takes its place. -/
def schedExactEnd (cfg : NodeCfg) (s : SchedNode) (t : ThreadId) (o old : ℕ) : SchedNode :=
  { ((schedFreeThreadEvent cfg s t old).setSlot t (some o)).become (.exact t o old) [] with
    grpEventNum := if s.mode t.1 = .schedCpu then s.grpEventNum
      else Function.update s.grpEventNum t.1 (s.grpEventNum t.1 - 1) }

/-! ## The end of a process -/

/-- The first event of a list of a group goes back to its queue. -/
def schedClearNonSchedEvent (cfg : NodeCfg) (s : SchedNode) (k : GrpId) (eventPri : ℕ) :
    SchedNode :=
  match schedTakeFirst (fun _ => true) (s.list (.nonSched k eventPri)) with
  | none => s
  | some (o, eventList) =>
      schedEventEnqueLock cfg
        ({ s with grpEventNum := Function.update s.grpEventNum k (s.grpEventNum k - 1) }.setList
          (.nonSched k eventPri) eventList) o

/-- The current thread of a group that is not scheduled is finished. -/
def schedClearCurNonSchedEvent (cfg : NodeCfg) (s : SchedNode) (t : ThreadId) : SchedNode :=
  if (s.thread t).status = .idle then s
  else
    match s.slot t with
    | none => s.setStatus t .idle
    | some o => (schedFreeThreadEvent cfg s t o).setStatus t .idle

/-- Nothing of the process is left to be cleared. -/
def ProcCleared (cfg : NodeCfg) (s : SchedNode) (pid : ℕ) : Prop :=
  (∀ c ∈ cfg.cpus, ∀ t ∈ s.cur c, t.1.1 ≠ pid) ∧
    ∀ gid < cfg.grpNum, s.mode (pid, gid) = .nonSchedCpu →
      (∀ tid ∈ (s.grp (pid, gid)).thread, (s.thread ((pid, gid), tid)).status = .idle) ∧
        (s.grpEventNum (pid, gid) = 0 ∨
          ∀ eventPri < cfg.eventPriNum, (s.list (.nonSched (pid, gid) eventPri)).head = [])

instance (cfg : NodeCfg) (s : SchedNode) (pid : ℕ) : Decidable (ProcCleared cfg s pid) := by
  unfold ProcCleared
  infer_instance

/-- The memory of the process is freed. -/
def schedFreeProcess (cfg : NodeCfg) (s : SchedNode) (pid : ℕ) : SchedNode :=
  { s with
    grp := fun k => if k.1 = pid then zeroGrpCtx else s.grp k
    slot := fun t => if t.1.1 = pid then none else s.slot t
    list := fun l =>
      match l with
      | .sched .. => s.list l
      | .nonSched k _ => if k.1 = pid then ⟨cfg.depth l, 0, []⟩ else s.list l }

/-! ## The machine -/

inductive NodeOp
  | addGrp (k : GrpId) (schedMode : GroupType) (threadNum : ℕ) (alloc : Bool)
  | subscribe (k : GrpId) (tid : ℕ) (eventBitmap : BitVec 64)
  | setMaxEventNum (k : GrpId) (eventId maxNum : ℕ)
  | publish (k : GrpId) (eventId : ℕ) (tid : Option ℕ)
  | alloc (event : SchedEvent) (q : QueId)
  | allocFail (event : SchedEvent)
  | fill (event : SchedEvent) (o : ℕ) (ok : Bool)
  | raise (k : GrpId) (o : ℕ) (self : Bool)
  | lower (k : GrpId) (o : ℕ)
  | add (k : GrpId) (o procPri eventPri : ℕ)
  | count (k : GrpId)
  | giveBack (k : GrpId) (o : ℕ)
  | wakeup (t : ThreadId)
  | select (cpuid : ℕ)
  | searchList (cpuid : ℕ) (owner : Option ThreadId) (procPri eventPri curTime : ℕ)
  | hand (cpuid : ℕ) (owner : Option ThreadId) (o : ℕ)
  | wakeupNext (cpuid : ℕ) (owner : Option ThreadId) (t : ThreadId)
  | toIdle (cpuid : ℕ) (owner : Option ThreadId)
  | wait (t : ThreadId) (cpuid pid : ℕ) (swapout : Bool)
  | finishEnd (t : ThreadId) (why : Finish) (o : ℕ)
  | switch (t : ThreadId) (cpuid : ℕ)
  | takeNonSched (t : ThreadId) (cpuid eventPri : ℕ)
  | sleep (t : ThreadId) (cpuid : ℕ) (reset : Bool)
  | quit (t : ThreadId) (cpuid : ℕ)
  | resume (t : ThreadId) (cpuid : ℕ)
  | awake (t : ThreadId) (cpuid : ℕ)
  | waitReturn (t : ThreadId) (cpuid : ℕ)
  | waitFail (t : ThreadId) (cpuid : ℕ)
  | exact (t : ThreadId) (eventId cpuid procPri eventPri : ℕ)
  | exactEnd (t : ThreadId) (o old : ℕ)
  | timeout (cpuid timestamp : ℕ)
  | delete (pid : ℕ)
  | exitCheck (cpuid : ℕ)
  | clearThread (t : ThreadId)
  | clearEvent (k : GrpId) (eventPri : ℕ)
  | free (pid : ℕ)

/-- `x`, when the call is under way and the condition holds. -/
def SchedNode.whenCall (s : SchedNode) (c : Call) (p : Prop) [Decidable p] (x : Option SchedNode) :
    Option SchedNode :=
  if c ∈ s.calls ∧ p then x else none

/-- No call holds a reference to the process, which is deleted. -/
def SchedNode.Unreferenced (s : SchedNode) (pid : ℕ) : Prop :=
  s.gone pid = true ∧ s.calls.all (fun c => !c.holdsProc pid) = true

instance (s : SchedNode) (pid : ℕ) : Decidable (s.Unreferenced pid) :=
  inferInstanceAs (Decidable (_ ∧ _))

def nodeStep (cfg : NodeCfg) (s : SchedNode) : NodeOp → Option SchedNode
  | .addGrp k schedMode threadNum alloc =>
      if s.gone k.1 = true ∨ cfg.grpNum ≤ k.2 then some s
      else some (s.setGrp k (schedProcAddGrp (s.grp k) schedMode threadNum alloc).2)
  | .subscribe k tid eventBitmap =>
      if s.gone k.1 = true then some s
      else some (s.setGrp k (schedThreadSubscribeEvent (s.grp k) tid eventBitmap).2)
  | .setMaxEventNum k eventId maxNum =>
      if maxNum = 0 ∨ s.gone k.1 = true ∨ s.mode k = .uninit then some s
      else
        some { s with maxEventNum :=
          Function.update s.maxEventNum k (Function.update (s.maxEventNum k) eventId maxNum) }
  | .publish k eventId tid => some (schedPublishEvent s k eventId tid)
  | .alloc event q => s.whenCall (.publish event) True (schedAllocEvent s event q)
  | .allocFail event => s.whenCall (.publish event) True (s.become (.publish event) [])
  | .fill event o ok =>
      s.whenCall (.alloced event o) True (schedPublishFillEvent s event o ok)
  | .raise k o self => s.whenCall (.checked k o) True (schedGrpEventNumRaise cfg s k o self)
  | .lower k o => s.whenCall (.refused k o) True (schedGrpEventNumLower s k o)
  | .add k o procPri eventPri =>
      s.whenCall (.adding k o) (procPri < cfg.procPriNum ∧ eventPri < cfg.eventPriNum)
        (schedPublishAdd s k o procPri eventPri)
  | .count k =>
      s.whenCall (.added k) True
        (some { s.become (.added k) [] with curEventNum := s.curEventNum + 1 })
  | .giveBack k o =>
      s.whenCall (.failed k o) True ((schedEventEnqueLock cfg s o).become (.failed k o) [])
  | .wakeup t =>
      if s.mode t.1 = .nonSchedCpu ∧ (s.thread t).valid = true then
        some (schedWakeupNonSchedGrp s t)
      else none
  | .select cpuid =>
      if cpuid ∈ cfg.cpus ∧ s.cur cpuid = none ∧
          s.calls.all (fun c => !c.selects cpuid) = true then
        some { s with calls := .search cpuid none :: s.calls }
      else none
  | .searchList cpuid owner procPri eventPri curTime =>
      s.whenCall (.search cpuid owner) (procPri < cfg.procPriNum ∧ eventPri < cfg.eventPriNum)
        (schedSearchList s cpuid owner procPri eventPri curTime)
  | .hand cpuid owner o =>
      s.whenCall (.took cpuid owner o) True (schedHandEvent cfg s cpuid owner o)
  | .wakeupNext cpuid owner t =>
      s.whenCall (.found cpuid owner t) True (schedWakeupNextThread s cpuid owner t)
  | .toIdle cpuid owner =>
      s.whenCall (.search cpuid owner) True (schedCpuToIdle s cpuid owner)
  | .wait t cpuid pid swapout =>
      if s.gone t.1.1 = false ∧ cpuid ∈ cfg.cpus ∧ s.mutexFree t then
        some (schedWait s t cpuid pid swapout)
      else none
  | .finishEnd t why o =>
      s.whenCall (.finish t why o) True (finishEnd cfg s t why o)
  | .switch t cpuid =>
      s.whenCall (.entered t cpuid) (s.mode t.1 = .schedCpu ∧
          (s.thread t).bindCpuid = cpuid ∧ (s.thread t).status = .run)
        (s.become (.entered t cpuid) [.search cpuid (some t)])
  | .takeNonSched t cpuid eventPri =>
      s.whenCall (.entered t cpuid) (s.mode t.1 = .nonSchedCpu ∧ eventPri < cfg.eventPriNum)
        (schedTakeNonSched s t cpuid eventPri)
  | .sleep t cpuid reset =>
      s.whenCall (.entered t cpuid)
        (s.mode t.1 = .nonSchedCpu ∨ (reset = false ∧ (s.thread t).bindCpuid = cpuid ∧
          (s.thread t).status ≠ .run))
        (let s := s.become (.entered t cpuid) [.sleeping t cpuid]
          if reset = true then s.setStatus t .idle else s)
  | .quit t cpuid =>
      s.whenCall (.entered t cpuid)
        (s.mode t.1 = .nonSchedCpu ∨ (s.thread t).bindCpuid ≠ cpuid)
        ((s.become (.entered t cpuid) []).setWaitFlag t false)
  | .resume t cpuid =>
      s.whenCall (.sleeping t cpuid) (s.mode t.1 = .nonSchedCpu ∧ s.mutexFree t)
        (s.become (.sleeping t cpuid) [.entered t cpuid])
  | .awake t cpuid =>
      s.whenCall (.sleeping t cpuid) (s.mode t.1 = .schedCpu ∧ (s.thread t).status = .ready)
        (s.become (.sleeping t cpuid) [.woken t cpuid])
  | .waitReturn t cpuid =>
      s.whenCall (.woken t cpuid) (s.mutexFree t) (schedWaitReturnEvent s t cpuid)
  | .waitFail t cpuid =>
      s.whenCall (.sleeping t cpuid) (s.mutexFree t)
        ((s.become (.sleeping t cpuid) []).setWaitFlag t false)
  | .exact t eventId cpuid procPri eventPri =>
      if procPri < cfg.procPriNum ∧ eventPri < cfg.eventPriNum then
        schedGetExact s t eventId cpuid procPri eventPri
      else none
  | .exactEnd t o old => s.whenCall (.exact t o old) True (schedExactEnd cfg s t o old)
  | .timeout cpuid timestamp =>
      (s.cur cpuid).bind fun t =>
        if s.gone t.1.1 = false ∧ (s.thread t).status = .run ∧
            (s.thread t).timeoutDetected = false ∧ s.mutexFree t then
          some (threadFinish s t (.timeout cpuid timestamp))
        else none
  | .delete pid => some { s with gone := Function.update s.gone pid true }
  | .exitCheck cpuid =>
      (s.cur cpuid).bind fun t =>
        if s.gone t.1.1 = true ∧ s.mutexFree t then some (threadFinish s t (.exit cpuid))
        else none
  | .clearThread t =>
      if s.Unreferenced t.1.1 ∧ s.mode t.1 = .nonSchedCpu ∧ t.2 ∈ (s.grp t.1).thread then
        some (schedClearCurNonSchedEvent cfg s t)
      else none
  | .clearEvent k eventPri =>
      if s.Unreferenced k.1 ∧ s.mode k = .nonSchedCpu ∧ eventPri < cfg.eventPriNum then
        some (schedClearNonSchedEvent cfg s k eventPri)
      else none
  | .free pid =>
      if s.Unreferenced pid ∧ ProcCleared cfg s pid then some (schedFreeProcess cfg s pid)
      else none

/-- Every event is in its queue, which has room for its own events. -/
def initNode (cfg : NodeCfg) : SchedNode where
  obj := fun _ => ⟨0, 0, 0, none⟩
  que := fun q =>
    let ring := (List.range cfg.eventNum).filter fun o => cfg.que o = q
    ⟨ring.length, ring⟩
  list := fun l => ⟨cfg.depth l, 0, []⟩
  curEventNum := 0
  grp := fun _ => zeroGrpCtx
  runStatus := fun _ => .idle
  eventNum := fun _ _ => 0
  maxEventNum := fun _ _ => 2 ^ 32 - 1
  grpEventNum := fun _ => 0
  slot := fun _ => none
  cur := fun _ => none
  gone := fun _ => false
  calls := []
  accepted := fun _ => none
  refusals := []

def nodeMachine (cfg : NodeCfg) : Machine SchedNode NodeOp where
  init s := s = initNode cfg
  step := nodeStep cfg

end OpiaiKernel.Esched
