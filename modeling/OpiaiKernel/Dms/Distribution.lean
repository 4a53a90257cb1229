import OpiaiKernel.Dms.EventDistribute
import OpiaiKernel.Lib.Keyed
import OpiaiKernel.Lib.Machine
import OpiaiKernel.Lib.Mailbox

/-!
# Distribution to many readers

Events are distributed while processes come and go, read and clear.  A pass of
`dms_event_distribute_to_process` goes over the entries under the mutex of the
handlers, so that there is one at a time; it looks at the status of an entry
before it takes the mutex of the entry.  A reader keeps the index of its entry
while it sleeps.  Each section under the mutex of an entry is one step, and
`dms_event_clear_exception` is one such step for each entry.

Beside the system stands what a reader may expect of it: a mailbox for each
entry, which is opened with the entry and gets every event from then on.
-/

namespace OpiaiKernel.Dms

/-- A pass: the entry it has come to, and whether it found a working process there. -/
structure Sending where
  exception : DmsEventPara
  index : ℕ
  entering : Bool
  deriving DecidableEq

/-- A thread in `dms_event_get_exception`: it waits for the entry at `index`, or
`awake` says that it is past the wait. -/
structure Reader where
  tid : ℕ
  pid : ℕ
  index : ℕ
  awake : Bool
  deriving DecidableEq

structure Distribution where
  process : ℕ → DmsEventProcess
  sending : Option Sending
  readers : List Reader

inductive DistributionAct
  | distribute (exception : DmsEventPara)
  | look
  | add
  | getIndex (pid tid : ℕ) (original alloc : Bool)
  | wake (tid : ℕ)
  | giveUp (tid : ℕ)
  | fetch (tid : ℕ)
  | clear (index : ℕ) (devid : UInt32) (alloc : Bool)
  | release (pid : ℕ)

namespace Distribution

def start : Distribution where
  process := fun _ => DmsEventProcess.init
  sending := none
  readers := []

def setProcess (s : Distribution) (i : ℕ) (proc : DmsEventProcess) : Distribution :=
  { s with process := Function.update s.process i proc }

def reader (s : Distribution) (tid : ℕ) : Option Reader := Keyed.get Reader.tid tid s.readers

/-- The thread returns from the call. -/
def returns (s : Distribution) (tid : ℕ) : Distribution :=
  { s with readers := Keyed.remove Reader.tid tid s.readers }

end Distribution

/-- The pass goes on to the next entry. -/
def Sending.next (sending : Sending) : Option Sending :=
  if sending.index + 1 < DMS_EVENT_EXCEPTION_PROCESS_MAX then
    some { sending with index := sending.index + 1, entering := false }
  else none

def distribute (s : Distribution) (exception : DmsEventPara) : Option Distribution :=
  match s.sending with
  | none => some { s with sending := some { exception, index := 0, entering := false } }
  | some _ => none

def look (s : Distribution) : Option Distribution := do
  let sending ← s.sending
  if sending.entering then none
  else if (s.process sending.index).processStatus ≠ .work then
    some { s with sending := sending.next }
  else some { s with sending := some { sending with entering := true } }

def add (s : Distribution) : Option Distribution := do
  let sending ← s.sending
  if sending.entering then
    let proc := dmsEventAddToProcessList (s.process sending.index) sending.exception
    some { s.setProcess sending.index proc with sending := sending.next }
  else none

def getIndex (s : Distribution) (pid tid : ℕ) (original alloc : Bool) : Option Distribution :=
  match s.reader tid with
  | some _ => none
  | none =>
      let (i, process) := dmsEventGetProcessIndex s.process pid tid original alloc
      if DMS_EVENT_EXCEPTION_PROCESS_MAX ≤ i then some s
      else
        some { s with process, readers := s.readers ++ [{ tid, pid, index := i, awake := false }] }

/-- The condition of the wait holds. -/
def wake (s : Distribution) (tid : ℕ) : Option Distribution := do
  let r ← s.reader tid
  if r.awake = false ∧ 0 < (s.process r.index).exceptionNum then
    some { s with
      readers := Keyed.modify Reader.tid tid (fun r => { r with awake := true }) s.readers }
  else none

/-- The time is over, or a signal came, or the time was not valid. -/
def giveUp (s : Distribution) (tid : ℕ) : Option Distribution := do
  let r ← s.reader tid
  if r.awake = false then some (s.returns tid) else none

def fetch (s : Distribution) (tid : ℕ) : Option Distribution := do
  let r ← s.reader tid
  if r.awake then
    some ((s.setProcess r.index
      (dmsEventGetExceptionByProcessIndex (s.process r.index)).2).returns tid)
  else none

def clear (s : Distribution) (i : ℕ) (devid : UInt32) (alloc : Bool) : Option Distribution :=
  if i < DMS_EVENT_EXCEPTION_PROCESS_MAX then
    some (s.setProcess i (dmsEventClearExceptionByProcessIndex (s.process i) devid alloc))
  else none

def Distribution.step (s : Distribution) : DistributionAct → Option Distribution
  | .distribute exception => distribute s exception
  | .look => look s
  | .add => add s
  | .getIndex pid tid original alloc => getIndex s pid tid original alloc
  | .wake tid => wake s tid
  | .giveUp tid => giveUp s tid
  | .fetch tid => fetch s tid
  | .clear i devid alloc => clear s i devid alloc
  | .release pid => some { s with process := dmsEventReleaseProc s.process pid }

/-! ## What a reader may expect -/

/-- An event that a thread of `pid` read from an entry that belonged to `owner`. -/
structure Read where
  pid : ℕ
  owner : ℤ
  event : DmsEventPara
  deriving DecidableEq

/-- Since an entry was opened: the number of events before that, the events that
were read from it, and the mailbox of its process. -/
structure Account where
  since : ℕ
  reads : List DmsEventPara
  mailbox : Mailbox DmsEventPara fifoRoom

/-- The system with the events that were distributed, all that was read and the
devices that were cleared. -/
structure Observed where
  sys : Distribution
  published : List DmsEventPara
  reads : List Read
  clears : List UInt32
  account : ℕ → Account

theorem fifoRoom_pos : 0 < fifoRoom := by decide

namespace Observed

def start : Observed where
  sys := Distribution.start
  published := []
  reads := []
  clears := []
  account := fun _ => ⟨0, [], .new⟩

/-- The number of events with which the passes are through at an entry. -/
def passed (o : Observed) (i : ℕ) : ℕ :=
  match o.sys.sending with
  | some sending => if sending.index ≤ i then o.published.length - 1 else o.published.length
  | none => o.published.length

def setAccount (o : Observed) (i : ℕ) (a : Account) : Observed :=
  { o with account := Function.update o.account i a }

/-- What a reader expects of a step. -/
def expect (o : Observed) : DistributionAct → Observed
  | .distribute exception => { o with published := o.published ++ [exception] }
  | .add =>
      match o.sys.sending with
      | some ⟨exception, i, _⟩ =>
          if (o.sys.process i).processStatus = .work then
            o.setAccount i { o.account i with
              mailbox := (o.account i).mailbox.arrive exception fifoRoom_pos }
          else o
      | none => o
  | .getIndex pid tid original alloc =>
      let (i, process) := dmsEventGetProcessIndex o.sys.process pid tid original alloc
      if (o.sys.process i).processStatus = .idle ∧ (process i).processStatus = .work then
        o.setAccount i ⟨o.passed i, [], .new⟩
      else o
  | .fetch tid =>
      match o.sys.reader tid with
      | some r =>
          match (dmsEventGetExceptionByProcessIndex (o.sys.process r.index)).1 with
          | some event =>
              let a := o.account r.index
              { o.setAccount r.index
                  { a with reads := a.reads ++ [event], mailbox := a.mailbox.take } with
                reads := o.reads ++ [⟨r.pid, (o.sys.process r.index).processPid, event⟩] }
          | none => o
      | none => o
  | .clear i devid alloc =>
      if (o.sys.process i).processStatus = .work ∧ alloc then
        { o.setAccount i { o.account i with
            mailbox := (o.account i).mailbox.clear fun event =>
              event.deviceid = devid.toUInt16 } with
          clears := o.clears ++ [devid] }
      else o
  | .look | .wake _ | .giveUp _ | .release _ => o

/-- The events that were distributed while the process has had the entry. -/
def segment (o : Observed) (i : ℕ) : List DmsEventPara :=
  (o.published.take (o.passed i)).drop (o.account i).since

end Observed

def distributionMachine : Machine Observed DistributionAct where
  init o := o = Observed.start
  step o a := (o.sys.step a).map fun sys => { o.expect a with sys }

end OpiaiKernel.Dms
