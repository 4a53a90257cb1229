import OpiaiKernel.Dms.Event
import Mathlib.Logic.Function.Basic
import Mathlib.Data.Int.Notation
import Mathlib.Algebra.Ring.Nat

/-!
# The queues of the processes that read events

Every process that waits for the events of the devices has a queue of its own.
A new event goes into all of them; where one is full, its oldest event is dropped.

The functions are translated from `dms_event_distribute.c`.  A queue holds whole
nodes, and of a node only the event is read again, so that a `kfifo` is the list
of its events with the number of bytes that it can hold.
-/

namespace OpiaiKernel.Dms

abbrev DMS_EVENT_EXCEPTION_PROCESS_MAX : ℕ := 64

abbrev DMS_INVALID_PID : ℤ := -1

/-- The size of `DMS_EVENT_NODE_STRU`: the 328 bytes of an event and two pointers. -/
abbrev DMS_EXCEPTION_KFIFO_CELL : ℕ := 344

abbrev DMS_EXCEPTION_KFIFO_SIZE : ℕ := DMS_EXCEPTION_KFIFO_CELL * DMS_MAX_EVENT_NUM

/-- The kernel's `roundup_pow_of_two`, of a size above one. -/
def roundupPowOfTwo (n : ℕ) : ℕ := 2 ^ (Nat.log2 (n - 1) + 1)

/-- `struct kfifo` -/
structure Kfifo where
  size : ℕ
  events : List DmsEventPara
  deriving DecidableEq

namespace Kfifo

/-- An empty queue, its size rounded up as `kfifo_alloc` does. -/
def alloc (size : ℕ) : Kfifo := { size := roundupPowOfTwo size, events := [] }

/-- What `kfifo_free` leaves. -/
def free : Kfifo := { size := 1, events := [] }

def reset (fifo : Kfifo) : Kfifo := { fifo with events := [] }

/-- `kfifo_len`, in bytes -/
def len (fifo : Kfifo) : ℕ := DMS_EXCEPTION_KFIFO_CELL * fifo.events.length

def avail (fifo : Kfifo) : ℕ := fifo.size - fifo.len

/-- `kfifo_in` of a node for which there is room. -/
def put (fifo : Kfifo) (event : DmsEventPara) : Kfifo :=
  { fifo with events := fifo.events ++ [event] }

end Kfifo

inductive DmsEventProcessStatus
  | idle
  | work
  deriving DecidableEq

/-- `DMS_EVENT_PROCESS_STRU` -/
structure DmsEventProcess where
  eventFifo : Kfifo
  exceptionNum : ℕ
  processPid : ℤ
  processTid : ℤ
  processStatus : DmsEventProcessStatus
  deriving DecidableEq

/-- An entry as `dms_event_distribute_stru_init` leaves it. -/
def DmsEventProcess.init : DmsEventProcess where
  eventFifo := Kfifo.free
  exceptionNum := 0
  processPid := DMS_INVALID_PID
  processTid := DMS_INVALID_PID
  processStatus := .idle

/-- An entry as `dms_event_get_process_index` fills it. -/
def DmsEventProcess.opened (pid tid : ℤ) : DmsEventProcess where
  eventFifo := Kfifo.alloc DMS_EXCEPTION_KFIFO_SIZE
  exceptionNum := 0
  processPid := pid
  processTid := tid
  processStatus := .work

/-- The number of events that the queue of a process holds. -/
def fifoRoom : ℕ := roundupPowOfTwo DMS_EXCEPTION_KFIFO_SIZE / DMS_EXCEPTION_KFIFO_CELL

/-- `exception_num` is set from the length of the queue. -/
def DmsEventProcess.count (proc : DmsEventProcess) (fifo : Kfifo) : DmsEventProcess :=
  { proc with eventFifo := fifo, exceptionNum := fifo.len / DMS_EXCEPTION_KFIFO_CELL }

/-! ## Distribution -/

/-- The loop that drops the oldest events until a node fits. -/
def makeRoom (size : ℕ) : List DmsEventPara → List DmsEventPara
  | [] => []
  | event :: events =>
      if Kfifo.avail { size, events := event :: events } < DMS_EXCEPTION_KFIFO_CELL then
        makeRoom size events
      else event :: events

def dmsEventAddToProcessList (proc : DmsEventProcess) (exception : DmsEventPara) :
    DmsEventProcess :=
  if proc.processStatus ≠ .work then proc
  else
    let fifo := proc.eventFifo
    proc.count (Kfifo.put { fifo with events := makeRoom fifo.size fifo.events } exception)

/-! ## Reading -/

/-- The event that is read, if the queue has one. -/
def dmsEventGetExceptionByProcessIndex (proc : DmsEventProcess) :
    Option DmsEventPara × DmsEventProcess :=
  let fifo := proc.eventFifo
  if fifo.len < DMS_EXCEPTION_KFIFO_CELL then (none, proc.count fifo)
  else (fifo.events.head?, proc.count { fifo with events := fifo.events.tail })

/-! ## Clearing -/

/-- The first loop moves what stays to a second queue. -/
def keepOthers (devid : UInt32) (events : List DmsEventPara) (buf : Kfifo) : Kfifo :=
  events.foldl
    (fun buf event => if event.deviceid ≠ devid.toUInt16 then buf.put event else buf) buf

/-- `alloc` says whether there is memory for the second queue. -/
def dmsEventClearExceptionByProcessIndex (proc : DmsEventProcess) (devid : UInt32)
    (alloc : Bool) : DmsEventProcess :=
  if proc.processStatus ≠ .work then proc
  else if proc.eventFifo.events = [] then proc
  else if alloc = false then proc
  else
    let buf := keepOthers devid proc.eventFifo.events (Kfifo.alloc DMS_EXCEPTION_KFIFO_SIZE)
    proc.count (buf.events.foldl Kfifo.put proc.eventFifo.reset)

/-! ## The table of the processes -/

/-- The index of the entry of a process, a new one if need be, or
`DMS_EVENT_EXCEPTION_PROCESS_MAX`.  `original` says whether the thread that made
the entry is still there. -/
def dmsEventGetProcessIndex (process : ℕ → DmsEventProcess) (pid tid : ℤ) (original alloc : Bool) :
    ℕ × (ℕ → DmsEventProcess) :=
  let entries := List.range DMS_EVENT_EXCEPTION_PROCESS_MAX
  match entries.find? fun i => (process i).processPid = pid with
  | some i =>
      if original ∧ (process i).processTid ≠ tid then (DMS_EVENT_EXCEPTION_PROCESS_MAX, process)
      else (i, process)
  | none =>
      match entries.find? fun i => (process i).processStatus = .idle with
      | some i =>
          if alloc = false then (DMS_EVENT_EXCEPTION_PROCESS_MAX, process)
          else (i, Function.update process i (.opened pid tid))
      | none => (DMS_EVENT_EXCEPTION_PROCESS_MAX, process)

def dmsEventReleaseOneProcess (_ : DmsEventProcess) : DmsEventProcess where
  eventFifo := Kfifo.free
  exceptionNum := 0
  processPid := DMS_INVALID_PID
  processTid := DMS_INVALID_PID
  processStatus := .idle

def dmsEventReleaseProc (process : ℕ → DmsEventProcess) (pid : ℤ) : ℕ → DmsEventProcess :=
  match (List.range DMS_EVENT_EXCEPTION_PROCESS_MAX).find? fun i =>
      (process i).processPid = pid with
  | some i => Function.update process i (dmsEventReleaseOneProcess (process i))
  | none => process

/-! ## What the operations do to a queue -/

example : fifoRoom = 762 := by decide

theorem len_div (fifo : Kfifo) : fifo.len / DMS_EXCEPTION_KFIFO_CELL = fifo.events.length :=
  Nat.mul_div_cancel_left _ (by decide)

/-- A queue of a working process. -/
structure FifoOk (fifo : Kfifo) : Prop where
  size : fifo.size = roundupPowOfTwo DMS_EXCEPTION_KFIFO_SIZE
  fits : fifo.events.length ≤ fifoRoom

theorem avail_lt_iff (fifo : Kfifo)
    (hsize : fifo.size = roundupPowOfTwo DMS_EXCEPTION_KFIFO_SIZE) :
    fifo.avail < DMS_EXCEPTION_KFIFO_CELL ↔ fifoRoom ≤ fifo.events.length := by
  have hround : roundupPowOfTwo DMS_EXCEPTION_KFIFO_SIZE = 262144 := by decide
  have hroom : fifoRoom = 762 := by decide
  rw [Kfifo.avail, Kfifo.len, hsize, hround, hroom]
  change 262144 - 344 * _ < 344 ↔ _
  omega

/-- One event at most has to give way. -/
theorem makeRoom_eq {fifo : Kfifo} (h : FifoOk fifo) : makeRoom fifo.size fifo.events =
    if fifo.events.length < fifoRoom then fifo.events else fifo.events.tail := by
  have hmake : ∀ events : List DmsEventPara, events.length < fifoRoom →
      makeRoom fifo.size events = events := by
    intro events hlt
    cases events with
    | nil => rfl
    | cons event events =>
        rw [makeRoom, if_neg]
        rw [avail_lt_iff { fifo with events := event :: events } h.size]
        exact Nat.not_le_of_lt hlt
  split
  · rename_i hlt
    exact hmake _ hlt
  · rename_i hfull
    have hfits := h.fits
    obtain ⟨size, events⟩ := fifo
    cases events with
    | nil => rfl
    | cons event events =>
        rw [makeRoom, if_pos ((avail_lt_iff _ h.size).mpr (Nat.le_of_not_lt hfull))]
        exact hmake events hfits

theorem foldl_put (events : List DmsEventPara) (fifo : Kfifo) :
    events.foldl Kfifo.put fifo = { fifo with events := fifo.events ++ events } := by
  induction events generalizing fifo with
  | nil => simp
  | cons event events ih => simp [Kfifo.put, ih]

theorem events_keepOthers (devid : UInt32) (events : List DmsEventPara) (buf : Kfifo) :
    (keepOthers devid events buf).events =
      buf.events ++ events.filter fun event => !decide (event.deviceid = devid.toUInt16) := by
  induction events generalizing buf with
  | nil => simp [keepOthers]
  | cons event events ih =>
      rw [keepOthers, List.foldl_cons, ← keepOthers, ih]
      by_cases hdev : event.deviceid = devid.toUInt16 <;> simp [hdev, Kfifo.put]

theorem eventsLt_iff (fifo : Kfifo) :
    fifo.len < DMS_EXCEPTION_KFIFO_CELL ↔ fifo.events = [] := by
  rw [Kfifo.len, ← List.length_eq_zero_iff]
  change 344 * _ < 344 ↔ _
  omega

end OpiaiKernel.Dms
