import OpiaiKernel.Hdc.HdcError
import OpiaiKernel.Lib.Machine
import Mathlib.Algebra.Ring.Nat
import Mathlib.Algebra.Ring.Int.Defs
import Mathlib.Data.List.Basic
import Mathlib.Logic.Function.Basic

/-!
# Sessions

A session slot is taken by a connect or by the connect message of the peer, and is set
idle by whoever ends the connection: a connect that fails, an accept that fails, a close,
or the delayed work after the peer has closed.  Each of them goes through sections of its
own and none of them looks whether the slot is still the one it was given.
-/

namespace OpiaiKernel.Hdc

def HDCDRV_INVALID_VALUE : ℤ := -1
def HDCDRV_INVALID_REMOTE_SESSION_ID : ℤ := -2
def HDCDRV_INVALID_CHAN_ID : ℕ := 0xFFFFFFFF
def HDCDRV_SUPPORT_MAX_DEV_MSG_CHAN : ℕ := 64
def HDCDRV_SESSION_UNIQUE_VALUE_MASK : UInt32 := 0x3FFFFFFF
def HDCDRV_SESSION_UNIQUE_VALUE_HOST_FLAG : UInt32 := 0x80000000

inductive SessionStatus
  | idle
  | conn
  | remoteClosed
  | closing
  deriving DecidableEq, Repr

structure Session where
  status : SessionStatus
  uniqueVal : UInt32
  remoteSessionFd : ℤ
  ownerPid : UInt64
  createPid : UInt64
  devId : ℕ
  chanId : ℕ
  fastChanId : ℕ
  deriving DecidableEq, Repr

/-- The slots, and the channels of each device. -/
structure SessionConfig where
  maxLong : ℕ
  maxShort : ℕ
  normalChanNum : ℕ → ℕ
  msgChanCnt : ℕ → ℕ
  normal_le : ∀ dev, normalChanNum dev ≤ msgChanCnt dev
  cnt_le : ∀ dev, msgChanCnt dev ≤ HDCDRV_SUPPORT_MAX_DEV_MSG_CHAN

/-- A call of `hdcdrv_connect` with its local values. -/
structure ConnectCall where
  devId : ℕ
  pid : UInt64
  chanId : ℕ
  fastChanId : ℕ
  uniqueVal : UInt32
  originPid : UInt64
  deriving DecidableEq, Repr

/-- What a connect, an accept or a close has to do next with its slot; a session in the
list of its service waits for an accept. -/
inductive SessStage
  | taken (call : ConnectCall)
  | send (call : ConnectCall)
  | wait (call : ConnectCall)
  | count (call : ConnectCall)
  | own (call : ConnectCall)
  | abort
  | queued (service : ℕ)
  | reply (pid : UInt64)
  | uncount
  | closing (notify : Bool) (creator : Option UInt64)
  | closed (creator : Option UInt64)
  | free (creator : Option UInt64)
  deriving DecidableEq, Repr

/-- The part of connection `conn` in the slot `fd`. -/
structure SessJob where
  conn : ℕ
  fd : ℕ
  stage : SessStage
  deriving DecidableEq, Repr

/-- The driver; connections are numbered by their `hdcdrv_session_pre_alloc`, `holder` is
the one that took the slot last, `bound` tells whether the slot is counted, `freed` has
the connections of each `hdcdrv_session_post_free`, and `idled` who set a slot idle and
who held it. -/
structure SessTable where
  sessions : ℕ → Session
  sessionCnt : ℕ → ℕ → ℤ
  curAllocSession : ℕ
  curAllocShortSession : ℕ
  uniqueVal : UInt32
  jobs : List SessJob
  next : ℕ
  holder : ℕ → ℕ
  bound : ℕ → Bool
  freed : List ℕ
  idled : List (ℕ × Option ℕ)

variable (cfg : SessionConfig)

namespace SessTable

def setSession (s : SessTable) (fd : ℕ) (x : Session) : SessTable :=
  { s with sessions := Function.update s.sessions fd x }

def setStatus (s : SessTable) (fd : ℕ) (status : SessionStatus) : SessTable :=
  s.setSession fd { s.sessions fd with status := status }

/-- The first slot that is idle and was not created by the process. -/
def search (s : SessTable) (cur base max : ℕ) (checkPid : UInt64) : Option ℕ :=
  ((List.range max).map fun i => (cur + i) % max + base).find? fun fd =>
    (s.sessions fd).createPid ≠ checkPid ∧ (s.sessions fd).status = .idle

/-- `hdcdrv_mod_msg_chan_session_cnt` with the channels of the slot. -/
def modSessionCnt (s : SessTable) (fd : ℕ) (num : ℤ) : SessTable :=
  let x := s.sessions fd
  if x.chanId < HDCDRV_SUPPORT_MAX_DEV_MSG_CHAN ∧ x.fastChanId < HDCDRV_SUPPORT_MAX_DEV_MSG_CHAN ∧
      x.chanId < cfg.msgChanCnt x.devId ∧ x.fastChanId < cfg.msgChanCnt x.devId then
    let cnt := s.sessionCnt x.devId
    let cnt := Function.update cnt x.chanId (cnt x.chanId + num)
    let cnt := Function.update cnt x.fastChanId (cnt x.fastChanId + num)
    { s with sessionCnt := Function.update s.sessionCnt x.devId cnt, bound :=
      Function.update s.bound fd (0 < num) }
  else { s with bound := Function.update s.bound fd (0 < num) }

/-- `hdcdrv_set_session_status` with `IDLE` and `hdcdrv_session_post_free`. -/
def endConn (s : SessTable) (conn fd : ℕ) : SessTable :=
  { s.setStatus fd .idle with
    freed := conn :: s.freed
    idled := (conn, if (s.sessions fd).status = .idle then none else some (s.holder fd)) ::
      s.idled }

/-- The job is done. -/
def dropJob (s : SessTable) (job : SessJob) : SessTable := { s with jobs := s.jobs.erase job }

/-- The job goes on with its next stage. -/
def goOn (s : SessTable) (job : SessJob) (stage : SessStage) : SessTable :=
  { s with jobs := s.jobs.erase job ++ [{ job with stage := stage }] }

end SessTable

/-- `hdcdrv_alloc_session`; `other` tells whether a service with short connections may use a
long one. -/
def hdcdrvAllocSession (s : SessTable) (short other : Bool) (checkPid : UInt64) :
    Option ℕ × SessTable :=
  let long :=
    match s.search s.curAllocSession 0 cfg.maxLong checkPid with
    | some fd =>
        (some fd, { s.setStatus fd .conn with curAllocSession := (fd + 1) % cfg.maxLong })
    | none => (none, s)
  if short then
    match s.search s.curAllocShortSession cfg.maxLong cfg.maxShort checkPid with
    | some fd =>
        (some fd, { s.setStatus fd .conn with
          curAllocShortSession := (fd + 1) % cfg.maxShort + cfg.maxLong })
    | none => if other then long else (none, s)
  else long

def hdcdrvGenUniqueValue (s : SessTable) : UInt32 × SessTable :=
  (HDCDRV_SESSION_UNIQUE_VALUE_HOST_FLAG |||
      ((s.uniqueVal + 1) &&& HDCDRV_SESSION_UNIQUE_VALUE_MASK),
    { s with uniqueVal := s.uniqueVal + 1 })

/-- What `hdcdrv_session_init` writes of the modelled fields. -/
def hdcdrvSessionInit (x : Session) (remoteSession : ℤ) (devId : ℕ) : Session :=
  { x with remoteSessionFd := remoteSession, devId := devId, ownerPid := HDCDRV_INVALID_PID }

/-- Whether `hdcdrv_session_chan_update` accepts the channels. -/
def hdcdrvSessionChanUpdate (x : Session) : Bool :=
  x.chanId < cfg.normalChanNum x.devId ∧ x.fastChanId < cfg.msgChanCnt x.devId

/-- A slot is taken after `hdcdrv_session_pre_alloc`; without one the quota is given back. -/
def takeSlot (s : SessTable) (short other : Bool) (checkPid : UInt64) (stage : SessStage) :
    Option ℕ × SessTable :=
  match hdcdrvAllocSession cfg s short other checkPid with
  | (some fd, s) =>
      (some fd,
        { s with
          jobs := s.jobs ++ [⟨s.next, fd, stage⟩]
          next := s.next + 1
          holder := Function.update s.holder fd s.next })
  | (none, s) => (none, { s with next := s.next + 1, freed := s.next :: s.freed })

structure ConnectMsg where
  devId : ℕ
  clientSession : ℤ
  service : ℕ
  chanId : ℕ
  fastChanId : ℕ
  uniqueVal : UInt32
  deriving DecidableEq, Repr

/-- `hdcdrv_ctrl_msg_connect_handle`; `chans` are the channels that
`hdcdrv_alloc_session_chan` gives. -/
def hdcdrvCtrlMsgConnect (s : SessTable) (msg : ConnectMsg) (short other : Bool)
    (listenPid : UInt64) (chans : ℕ × ℕ) : Bool × SessTable :=
  match takeSlot cfg s short other listenPid (.queued msg.service) with
  | (none, s) => (false, s)
  | (some fd, s) =>
      let (chanId, fastChanId) :=
        if msg.fastChanId ≠ HDCDRV_INVALID_CHAN_ID ∧ msg.chanId ≠ HDCDRV_INVALID_CHAN_ID then
          (msg.chanId, msg.fastChanId)
        else chans
      let x := hdcdrvSessionInit { s.sessions fd with uniqueVal := msg.uniqueVal }
        msg.clientSession msg.devId
      let x := { x with chanId := chanId, fastChanId := fastChanId }
      let s := s.setSession fd x
      if hdcdrvSessionChanUpdate cfg x then (true, s.modSessionCnt cfg fd 1)
      else
        let job : SessJob := ⟨s.holder fd, fd, .queued msg.service⟩
        (false, (s.dropJob job).endConn job.conn fd)

structure ReplyMsg where
  devId : ℕ
  clientSession : ℕ
  serverSession : ℤ
  chanId : ℕ
  fastChanId : ℕ
  uniqueVal : UInt32
  deriving DecidableEq, Repr

/-- The session of `hdcdrv_ctrl_msg_connect_reply` after the reply. -/
def replySession (x : Session) (msg : ReplyMsg) : Session :=
  let x :=
    if x.fastChanId = HDCDRV_INVALID_CHAN_ID ∧ x.chanId = HDCDRV_INVALID_CHAN_ID then
      { x with fastChanId := msg.fastChanId, chanId := msg.chanId }
    else x
  { x with
    remoteSessionFd :=
      if hdcdrvSessionChanUpdate cfg x then msg.serverSession
      else HDCDRV_INVALID_REMOTE_SESSION_ID }

def hdcdrvCtrlMsgConnectReply (s : SessTable) (msg : ReplyMsg) : Bool × SessTable :=
  let x := s.sessions msg.clientSession
  if cfg.maxLong + cfg.maxShort ≤ msg.clientSession ∨ x.status = .idle ∨ x.devId ≠ msg.devId ∨
      x.uniqueVal ≠ msg.uniqueVal then (false, s)
  else
    let x := replySession cfg x msg
    (x.status = .conn ∧ hdcdrvSessionChanUpdate cfg x, s.setSession msg.clientSession x)

structure CloseMsg where
  remoteSession : ℕ
  uniqueVal : UInt32
  deriving DecidableEq, Repr

/-- `hdcdrv_ctrl_msg_close`, up to the delayed work. -/
def hdcdrvCtrlMsgClose (s : SessTable) (msg : CloseMsg) : Bool × SessTable :=
  let x := s.sessions msg.remoteSession
  if cfg.maxLong + cfg.maxShort ≤ msg.remoteSession then (false, s)
  else if x.status = .idle ∨ x.status = .remoteClosed ∨ x.status = .closing then (true, s)
  else if x.uniqueVal ≠ msg.uniqueVal then (false, s)
  else (true, s.setStatus msg.remoteSession .remoteClosed)

/-- `hdcdrv_session_free` of a delayed work, which runs without interruption. -/
def closeNow (s : SessTable) (fd : ℕ) : SessTable :=
  let s := s.setSession fd { s.sessions fd with
    status := .closing, uniqueVal := 0, ownerPid := HDCDRV_INVALID_PID }
  (s.modSessionCnt cfg fd (-1)).endConn (s.holder fd) fd

/-- `hdcdrv_session_state_to_closing` of `hdcdrv_close`; `permitted` is the check of the
container. -/
def hdcdrvClose (s : SessTable) (fd : ℕ) (pid : UInt64) (permitted : Bool)
    (creator : Option UInt64) : SessTable :=
  let x := s.sessions fd
  if cfg.maxLong + cfg.maxShort ≤ fd then s
  else if x.status = .idle ∨ x.status = .closing then s
  else if x.ownerPid ≠ pid ∨ permitted = false then s
  else
    { s.setStatus fd .closing with
      jobs := s.jobs ++ [⟨s.holder fd, fd, .closing (x.status = .conn) creator⟩] }

/-- The next section of a job; `ok` is the result of a send or of a wait. -/
def runJob (s : SessTable) (job : SessJob) (ok : Bool) : Option SessTable :=
  let x := s.sessions job.fd
  match job.stage with
  | .taken call =>
      let (uniqueVal, s) := hdcdrvGenUniqueValue s
      let x := hdcdrvSessionInit { x with uniqueVal := uniqueVal } HDCDRV_INVALID_VALUE call.devId
      let x := { x with
        chanId := call.chanId
        fastChanId := call.fastChanId
        createPid := call.pid }
      some ((s.setSession job.fd x).goOn job
        (.send { call with uniqueVal := uniqueVal, originPid := (s.sessions job.fd).createPid }))
  | .send call =>
      if ok then some (s.goOn job (.wait call))
      else
        some ((s.setSession job.fd { x with createPid := call.originPid }).goOn job (.free none))
  | .wait call =>
      if ok = true ∧ x.remoteSessionFd = HDCDRV_INVALID_VALUE then none
      else if ok = false ∨ x.remoteSessionFd = HDCDRV_INVALID_REMOTE_SESSION_ID ∨
          x.status = .idle then
        some ((s.setSession job.fd { x with createPid := call.originPid }).goOn job .abort)
      else some (s.goOn job (.count call))
  | .count call => some ((s.modSessionCnt cfg job.fd 1).goOn job (.own call))
  | .own call => some ((s.setSession job.fd { x with ownerPid := call.pid }).dropJob job)
  | .abort => some (s.goOn job (.free none))
  | .queued _ => none
  | .reply pid =>
      if ok then some ((s.setSession job.fd { x with ownerPid := pid }).dropJob job)
      else some (s.goOn job .uncount)
  | .uncount =>
      some ((s.modSessionCnt cfg job.fd (-1)).goOn job (.free (some HDCDRV_INVALID_PID)))
  | .closing _ creator =>
      some ((s.setSession job.fd { x with
        uniqueVal := 0, ownerPid := HDCDRV_INVALID_PID }).goOn job (.closed creator))
  | .closed creator => some ((s.modSessionCnt cfg job.fd (-1)).goOn job (.free creator))
  | .free creator =>
      some (((s.setSession job.fd { x with createPid := creator.getD x.createPid }).dropJob
        job).endConn job.conn job.fd)

def SessStage.service : SessStage → Option ℕ
  | .queued service => some service
  | _ => none

/-- `hdcdrv_accept_wait`, and what `hdcdrv_accept` writes before its reply. -/
def hdcdrvAccept (s : SessTable) (service : ℕ) (pid : UInt64) : Option SessTable :=
  match s.jobs.find? fun job => job.stage.service = some service with
  | none => none
  | some job =>
      some ((s.setSession job.fd { s.sessions job.fd with createPid := pid }).goOn job
        (.reply pid))

inductive SessAct
  | connect (call : ConnectCall) (short other : Bool)
  | accept (service : ℕ) (pid : UInt64)
  | close (fd : ℕ) (pid : UInt64) (permitted : Bool) (creator : Option UInt64)
  | run (job : SessJob) (ok : Bool)
  | msgConnect (msg : ConnectMsg) (short other : Bool) (listenPid : UInt64) (chans : ℕ × ℕ)
  | msgReply (msg : ReplyMsg)
  | msgClose (msg : CloseMsg)
  | remoteCloseWork (fd : ℕ)
  | closeUnknowWork (fd : ℕ)
  deriving DecidableEq, Repr

/-- The delayed works do nothing unless the status is the one they are for. -/
def sessStep (s : SessTable) : SessAct → Option SessTable
  | .connect call short other => some (takeSlot cfg s short other call.pid (.taken call)).2
  | .accept service pid => hdcdrvAccept s service pid
  | .close fd pid permitted creator => some (hdcdrvClose cfg s fd pid permitted creator)
  | .run job ok => if job ∈ s.jobs then runJob cfg s job ok else none
  | .msgConnect msg short other listenPid chans =>
      some (hdcdrvCtrlMsgConnect cfg s msg short other listenPid chans).2
  | .msgReply msg => some (hdcdrvCtrlMsgConnectReply cfg s msg).2
  | .msgClose msg => some (hdcdrvCtrlMsgClose cfg s msg).2
  | .remoteCloseWork fd =>
      if fd < cfg.maxLong + cfg.maxShort ∧ (s.sessions fd).status = .remoteClosed then
        some (closeNow cfg s fd)
      else none
  | .closeUnknowWork fd =>
      if fd < cfg.maxLong + cfg.maxShort ∧ (s.sessions fd).status = .conn then
        some (closeNow cfg s fd)
      else none

/-- A driver after its initialisation. -/
def sessMachine : Machine SessTable SessAct where
  init s :=
    (∀ fd, (s.sessions fd).status = .idle) ∧ (∀ dev chan, s.sessionCnt dev chan = 0) ∧
      s.jobs = [] ∧ s.next = 0 ∧ (∀ fd, s.bound fd = false) ∧ s.freed = [] ∧ s.idled = []
  step := sessStep cfg

end OpiaiKernel.Hdc
