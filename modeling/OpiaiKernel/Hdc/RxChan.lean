import OpiaiKernel.Lib.Machine
import OpiaiKernel.Lib.Ring
import Mathlib.Data.List.Infix
import Mathlib.Data.List.Range
import Mathlib.Algebra.Ring.Nat
import Mathlib.Algebra.Ring.Int.Defs
import Mathlib.Logic.Function.Basic

/-!
# The receive path of a message channel

The notify task takes descriptors from the send queue and submits their copies, the
completion of a copy moves the position up to which the receive task may go, and the
receive task answers each descriptor and puts its packet on the list of its session.  A
descriptor without a copy moves the position itself, unless a copy is in flight.
-/

namespace OpiaiKernel.Hdc

def HDCDRV_DESC_QUEUE_DEPTH : ℕ := 16
def HDCDRV_SESSION_RX_LIST_MAX_PKT : ℕ := 8
def HDCDRV_BUF_MAX_CNT : ℕ := 16

inductive ChanType
  | normal
  | fast
  deriving DecidableEq, Repr

structure SqDesc where
  localSession : ℤ
  remoteSession : ℤ
  innerChecker : UInt32
  /-- The packet at the source address. -/
  data : ℕ
  deriving DecidableEq, Repr

/-- A `struct hdcdrv_buf_desc` with the packet that has been copied. -/
structure BufDesc where
  buf : Option ℕ
  status : ℤ
  localSession : ℤ
  remoteSession : ℤ
  innerChecker : UInt32
  skipFlag : Bool
  data : ℕ
  deriving DecidableEq, Repr

structure CqDesc where
  sqHead : ℕ
  status : ℤ
  session : ℤ
  deriving DecidableEq, Repr

structure RxSession where
  idle : Bool
  innerChecker : UInt32
  rxList : List BufDesc

structure MsgChan where
  rx : ℕ → BufDesc
  rxHead : ℕ
  dmaHead : ℕ
  submitDmaHead : ℕ
  rxTriggerFlag : Bool
  dmaNeedSubmitFlag : Bool

/-- A copy in flight. -/
structure DmaCopy where
  transId : ℕ
  data : ℕ
  deriving DecidableEq, Repr

/-- What the receive task did with a descriptor. -/
inductive RxOutcome
  | skipped
  | dead (live : Bool) (status : ℤ)
  | hooked (session : ℤ) (data : ℕ)
  | listed (session : ℤ) (data : ℕ)
  deriving DecidableEq, Repr

/-- A channel of a valid device, with its queues, the copies in flight in the order of
their submission, the receive task, the pool and the sessions; `sent`, `taken`, `skipped`
and `log` follow the descriptors by number. -/
structure RxState where
  chan : MsgChan
  sessions : ℤ → RxSession
  sq : List SqDesc
  cq : List CqDesc
  dma : List DmaCopy
  rxTask : Bool
  running : Bool
  pool : List ℕ
  sent : ℕ
  taken : ℕ
  skipped : List ℕ
  log : List (ℕ × RxOutcome)

variable (maxSession : ℤ) (type : ChanType)

def hdcdrvSessionInnerCheck (sessions : ℤ → RxSession) (fd : ℤ) (checker : UInt32) : Bool :=
  0 ≤ fd ∧ fd < maxSession ∧ (sessions fd).idle = false ∧ (sessions fd).innerChecker = checker

def hdcdrvSessionRxListIsFull (session : RxSession) : Bool :=
  match type with
  | .normal => session.rxList.length + 1 = HDCDRV_SESSION_RX_LIST_MAX_PKT
  | .fast => session.rxList.length + 1 = HDCDRV_BUF_MAX_CNT

def hdcdrvDescClear (desc : BufDesc) : BufDesc := { desc with buf := none }

namespace RxState

def setDesc (s : RxState) (head : ℕ) (desc : BufDesc) : RxState :=
  { s with chan := { s.chan with rx := Function.update s.chan.rx head desc } }

def setRxList (s : RxState) (fd : ℤ) (rxList : List BufDesc) : RxState :=
  { s with
    sessions := Function.update s.sessions fd { s.sessions fd with rxList := rxList } }

/-- The buffers go back to the pool; a fast channel has none. -/
def freeMem (s : RxState) (descs : List BufDesc) : RxState :=
  match type with
  | .normal => { s with pool := descs.filterMap BufDesc.buf ++ s.pool }
  | .fast => s

/-- A reader or the end of a session has made room. -/
def trigger (s : RxState) : RxState :=
  if s.chan.rxTriggerFlag then
    { s with chan := { s.chan with rxTriggerFlag := false }, rxTask := true }
  else s

/-- The end of the notify step for a descriptor without a copy. -/
def skip (s : RxState) (head : ℕ) : RxState :=
  if s.chan.submitDmaHead = s.chan.dmaHead then
    { s with chan := { s.chan with dmaHead := head, submitDmaHead := head }, rxTask := true }
  else s

/-- `hdcdrv_move_r_sq_desc`. -/
def take (s : RxState) (rest : List SqDesc) : RxState :=
  { s with sq := rest, taken := s.taken + 1 }

end RxState

inductive DmaRet
  | ok
  | noSpace
  | fail
  deriving DecidableEq, Repr

/-- What allocation and submission give. -/
inductive RxCopy
  | noMem
  | submit (buf : ℕ) (ret : DmaRet)
  deriving DecidableEq, Repr

/-- The buffer is written to the descriptor; a fast channel has none. -/
def rxAllocMem (s : RxState) (buf : ℕ) (desc : BufDesc) : BufDesc × List ℕ :=
  match type with
  | .normal => ({ desc with buf := some buf }, s.pool.erase buf)
  | .fast => (desc, s.pool)

/-- One round of `hdcdrv_rx_msg_notify_proc`, which handles the first readable descriptor. -/
def hdcdrvRxMsgNotifyProc (s : RxState) (copy : RxCopy) : Option RxState :=
  match s.sq with
  | [] => none
  | sqDesc :: rest =>
      let head := s.taken % HDCDRV_DESC_QUEUE_DEPTH
      let desc := { s.chan.rx head with
        localSession := sqDesc.remoteSession
        remoteSession := sqDesc.localSession }
      if hdcdrvSessionInnerCheck maxSession s.sessions sqDesc.remoteSession
          sqDesc.innerChecker = false then
        some (((({ s with skipped := s.taken :: s.skipped } : RxState).setDesc head
          { desc with skipFlag := true }).skip head).take rest)
      else
        let desc := { desc with innerChecker := sqDesc.innerChecker }
        match copy with
        | .noMem => if type = .normal then some (s.setDesc head desc) else none
        | .submit buf ret =>
            if type = .normal ∧ buf ∉ s.pool then none
            else
              let (desc, pool) := rxAllocMem type s buf desc
              match ret with
              | .noSpace =>
                  -- the buffer is freed again
                  let s := s.setDesc head desc
                  some { s with chan := { s.chan with dmaNeedSubmitFlag := true } }
              | .fail =>
                  some ((((({ s with pool := pool, skipped := s.taken :: s.skipped } :
                    RxState).setDesc head { desc with skipFlag := true }).skip head)).take rest)
              | .ok =>
                  let s : RxState := { s with pool := pool, dma := s.dma ++ [⟨head, sqDesc.data⟩] }
                  let s := s.setDesc head { desc with skipFlag := false }
                  some (({ s with chan := { s.chan with submitDmaHead := head } } :
                    RxState).take rest)

/-- The copies complete in the order of their submission. -/
def hdcdrvRxMsgCallback (s : RxState) (status : ℤ) : Option RxState :=
  match s.dma with
  | [] => none
  | ⟨transId, data⟩ :: dma =>
      if HDCDRV_DESC_QUEUE_DEPTH ≤ transId then some { s with dma := dma }
      else
        let desc := s.chan.rx transId
        let s := ({ s with dma := dma } : RxState).setDesc transId { desc with
          status := status
          data := if status = 0 then data else desc.data }
        some { s with chan := { s.chan with dmaHead := transId }, rxTask := true }

/-- The descriptor is cleared and answered. -/
def hdcdrvResponseCq (s : RxState) (head : ℕ) (outcome : RxOutcome) : RxState :=
  let desc := s.chan.rx head
  let s := s.setDesc head (hdcdrvDescClear desc)
  { s with
    chan := { s.chan with rxHead := head }
    log := s.log ++ [(s.cq.length, outcome)]
    cq := s.cq ++ [⟨head, desc.status, desc.remoteSession⟩] }

/-- One round of `hdcdrv_msg_chan_recv_task`; `hook` tells whether the hook of the session
finishes the packet. -/
def hdcdrvMsgChanRecvTask (s : RxState) (hook : Bool) : RxState :=
  if s.chan.rxHead = s.chan.dmaHead then { s with running := false }
  else
    let head := (s.chan.rxHead + 1) % HDCDRV_DESC_QUEUE_DEPTH
    let desc := s.chan.rx head
    let live := hdcdrvSessionInnerCheck maxSession s.sessions desc.localSession desc.innerChecker
    if desc.skipFlag then hdcdrvResponseCq s head .skipped
    else if type = .normal ∧ desc.buf = none then
      { s with chan := { s.chan with rxHead := head } }
    else if live = false ∨ desc.status ≠ 0 then
      hdcdrvResponseCq (s.freeMem type [desc]) head (.dead live desc.status)
    else if hook then
      hdcdrvResponseCq (s.freeMem type [desc]) head (.hooked desc.localSession desc.data)
    else if hdcdrvSessionRxListIsFull type (s.sessions desc.localSession) then
      { s with chan := { s.chan with rxTriggerFlag := true }, running := false }
    else
      hdcdrvResponseCq
        (s.setRxList desc.localSession ((s.sessions desc.localSession).rxList ++ [desc]))
        head (.listed desc.localSession desc.data)

inductive RxAct
  | send (localSession remoteSession : ℤ) (checker : UInt32)
  | notify (copy : RxCopy)
  | callback (status : ℤ)
  | taskStart
  | taskRound (hook : Bool)
  | recv (fd : ℤ) (count : ℕ)
  | clearRxBuf (fd : ℤ)
  | setSession (fd : ℤ) (idle : Bool) (checker : UInt32)
  deriving DecidableEq, Repr

/-- The peer sends while fewer than 15 descriptors are without an answer; sessions are
opened and closed at any time. -/
def rxStep (s : RxState) : RxAct → Option RxState
  | .send localSession remoteSession checker =>
      if s.sent + 1 < s.cq.length + HDCDRV_DESC_QUEUE_DEPTH then
        some { s with
          sq := s.sq ++ [⟨localSession, remoteSession, checker, s.sent⟩], sent := s.sent + 1 }
      else none
  | .notify copy => hdcdrvRxMsgNotifyProc maxSession type s copy
  | .callback status => hdcdrvRxMsgCallback s status
  | .taskStart =>
      if s.rxTask = true ∧ s.running = false then some { s with rxTask := false, running := true }
      else none
  | .taskRound hook => if s.running then some (hdcdrvMsgChanRecvTask maxSession type s hook) else none
  | .recv fd count =>
      let rxList := (s.sessions fd).rxList
      if 0 < count ∧ count ≤ rxList.length then
        some (((s.setRxList fd (rxList.drop count)).trigger).freeMem type (rxList.take count))
      else none
  | .clearRxBuf fd =>
      some (((s.setRxList fd []).freeMem type (s.sessions fd).rxList).trigger)
  | .setSession fd idle checker =>
      some { s with
        sessions := Function.update s.sessions fd
          { s.sessions fd with idle := idle, innerChecker := checker } }

/-- A new channel, with the buffers of the pool of its device. -/
def rxMachine (buffers : List ℕ) : Machine RxState RxAct where
  init s :=
    s.chan.rxHead = HDCDRV_DESC_QUEUE_DEPTH - 1 ∧ s.chan.dmaHead = HDCDRV_DESC_QUEUE_DEPTH - 1 ∧
      s.chan.submitDmaHead = HDCDRV_DESC_QUEUE_DEPTH - 1 ∧
      (∀ fd, (s.sessions fd).rxList = []) ∧ s.sq = [] ∧ s.cq = [] ∧ s.dma = [] ∧
      s.rxTask = false ∧ s.running = false ∧ s.pool = buffers ∧ s.sent = 0 ∧ s.taken = 0 ∧
      s.skipped = [] ∧ s.log = []
  step := rxStep maxSession type

end OpiaiKernel.Hdc
