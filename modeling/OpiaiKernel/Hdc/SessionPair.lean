import OpiaiKernel.Hdc.Session

/-!
# The two ends of a session

A client and a server driver, each with the sessions of `SessTable`, and the connect,
reply and close messages that they send to each other.  A message is handled by the peer
within its send, is lost, or is handled and its answer lost.
-/

namespace OpiaiKernel.Hdc

inductive Side
  | client
  | server
  deriving DecidableEq, Repr

def Side.peer : Side → Side
  | .client => .server
  | .server => .client

/-- The drivers, and the number that each has for the device of the other. -/
structure SessionLink where
  config : Side → SessionConfig
  dev : Side → ℕ

/-- What becomes of `hdcdrv_non_trans_ctrl_msg_send`. -/
inductive Delivery
  | lost
  | answered
  | unanswered
  deriving DecidableEq, Repr

/-- `value` has the unique value of a connection, `connected` and `accepted` the
connection, the slot and the value of each connect and accept that returned success, and
`changed` the value of the connection whose slot a reply or a close message has changed,
and the value in the message. -/
structure PairState where
  table : Side → SessTable
  value : Side → ℕ → Option UInt32
  connected : List (ℕ × ℕ × UInt32)
  accepted : List (ℕ × ℕ × UInt32)
  changed : List (Option UInt32 × UInt32)

namespace PairState

def setTable (s : PairState) (side : Side) (t : SessTable) : PairState :=
  { s with table := Function.update s.table side t }

def setValue (s : PairState) (side : Side) (conn : ℕ) (value : UInt32) : PairState :=
  { s with value :=
    Function.update s.value side (Function.update (s.value side) conn (some value)) }

/-- What a message may change: status, remote session and channels. -/
def sameEnds (x y : Session) : Bool :=
  x.status = y.status ∧ x.remoteSessionFd = y.remoteSessionFd ∧ x.chanId = y.chanId ∧
    x.fastChanId = y.fastChanId

/-- A message with the value has been handled for the slot. -/
def handled (s : PairState) (side : Side) (fd : ℕ) (value : UInt32) (t : SessTable) : PairState :=
  let s' := s.setTable side t
  if sameEnds ((s.table side).sessions fd) (t.sessions fd) then s'
  else { s' with changed := (s.value side ((s.table side).holder fd), value) :: s.changed }

end PairState

variable (link : SessionLink)

/-- `hdcdrv_close_remote_session`; the session of the peer is negative when there is none. -/
def hdcdrvCloseRemoteSession (s : PairState) (side : Side) (x : Session) (delivered : Bool) :
    PairState :=
  if delivered = false ∨ x.remoteSessionFd < 0 then s
  else
    let fd := x.remoteSessionFd.toNat
    s.handled side.peer fd x.uniqueVal
      (hdcdrvCtrlMsgClose (link.config side.peer) (s.table side.peer) ⟨fd, x.uniqueVal⟩).2

/-- The connect message of a call from the slot. -/
def connectMsg (fd : ℕ) (call : ConnectCall) (service : ℕ) : ConnectMsg where
  devId := link.dev .server
  clientSession := fd
  service := service
  chanId := call.chanId
  fastChanId := call.fastChanId
  uniqueVal := call.uniqueVal

/-- What the peer decides when it handles a connect message. -/
structure ConnectChoice where
  service : ℕ
  short : Bool
  other : Bool
  listenPid : UInt64
  chans : ℕ × ℕ
  deriving DecidableEq, Repr

/-- The connection of the message is the next one of the server. -/
def deliverConnect (s : PairState) (msg : ConnectMsg) (choice : ConnectChoice) :
    Bool × PairState :=
  let (ok, t) := hdcdrvCtrlMsgConnect (link.config .server) (s.table .server) msg choice.short
    choice.other choice.listenPid choice.chans
  (ok, (s.setTable .server t).setValue .server (s.table .server).next msg.uniqueVal)

/-- The connect message of `hdcdrv_connect`. -/
def sendConnect (s : PairState) (job : SessJob) (call : ConnectCall) (choice : ConnectChoice)
    (delivery : Delivery) : Option PairState :=
  let (ok, s) :=
    if delivery = .lost then (false, s)
    else deliverConnect link s (connectMsg link job.fd call choice.service) choice
  (runJob (link.config .client) (s.table .client) job (ok ∧ delivery = .answered)).map
    (s.setTable .client)

def replyMsg (fd : ℕ) (x : Session) : ReplyMsg where
  devId := link.dev .client
  clientSession := x.remoteSessionFd.toNat
  serverSession := fd
  chanId := x.chanId
  fastChanId := x.fastChanId
  uniqueVal := x.uniqueVal

def deliverReply (s : PairState) (fd : ℕ) (x : Session) : Bool × PairState :=
  if x.remoteSessionFd < 0 then (false, s)
  else
    let (ok, t) := hdcdrvCtrlMsgConnectReply (link.config .client) (s.table .client)
      (replyMsg link fd x)
    (ok, s.handled .client x.remoteSessionFd.toNat x.uniqueVal t)

/-- The reply message of `hdcdrv_accept`. -/
def sendReply (s : PairState) (job : SessJob) (delivery : Delivery) : Option PairState :=
  let x := (s.table .server).sessions job.fd
  let (ok, s) := if delivery = .lost then (false, s) else deliverReply link s job.fd x
  let ok := decide (ok ∧ delivery = .answered)
  (runJob (link.config .server) (s.table .server) job ok).map fun t =>
    let s := s.setTable .server t
    if ok then { s with accepted := (job.conn, job.fd, x.uniqueVal) :: s.accepted } else s

/-- The close message of `hdcdrv_close` or of a connect that has failed. -/
def sendClose (s : PairState) (side : Side) (job : SessJob) (delivered : Bool) :
    Option PairState :=
  let x := (s.table side).sessions job.fd
  match job.stage with
  | .closing true creator =>
      let s := hdcdrvCloseRemoteSession link s side x delivered
      some (s.setTable side ((s.table side).goOn job (.closing false creator)))
  | .abort =>
      let s := hdcdrvCloseRemoteSession link s side x delivered
      some (s.setTable side ((s.table side).goOn job (.free none)))
  | _ => none

/-- Whether the next section of a job is a message. -/
def SessStage.sends : SessStage → Bool
  | .send _ | .reply _ | .abort | .closing true _ => true
  | _ => false

def SessStage.replies : SessStage → Bool
  | .reply _ => true
  | _ => false

inductive PairAct
  | connect (call : ConnectCall) (short other : Bool)
  | accept (service : ℕ) (pid : UInt64)
  | close (side : Side) (fd : ℕ) (pid : UInt64) (permitted : Bool) (creator : Option UInt64)
  | run (side : Side) (job : SessJob) (ok : Bool)
  | sendConnect (job : SessJob) (call : ConnectCall) (choice : ConnectChoice)
      (delivery : Delivery)
  | sendReply (job : SessJob) (delivery : Delivery)
  | sendClose (side : Side) (job : SessJob) (delivered : Bool)
  | remoteCloseWork (side : Side) (fd : ℕ)
  | closeUnknowWork (side : Side) (fd : ℕ) (delivered : Bool)
  deriving DecidableEq, Repr

/-- A section without a message; the connect has its value after the first one, and
returns after the last one. -/
def runLocal (s : PairState) (side : Side) (job : SessJob) (ok : Bool) : Option PairState :=
  (sessStep (link.config side) (s.table side) (.run job ok)).map fun t =>
    let s := s.setTable side t
    match job.stage with
    | .taken _ => s.setValue side job.conn (t.sessions job.fd).uniqueVal
    | .own call => { s with connected := (job.conn, job.fd, call.uniqueVal) :: s.connected }
    | _ => s

def pairStep (s : PairState) : PairAct → Option PairState
  | .connect call short other =>
      (sessStep (link.config .client) (s.table .client)
        (.connect { call with devId := link.dev .client } short other)).map (s.setTable .client)
  | .accept service pid =>
      (sessStep (link.config .server) (s.table .server) (.accept service pid)).map
        (s.setTable .server)
  | .close side fd pid permitted creator =>
      (sessStep (link.config side) (s.table side) (.close fd pid permitted creator)).map
        (s.setTable side)
  | .run side job ok => if job.stage.sends then none else runLocal link s side job ok
  | .sendConnect job call choice delivery =>
      if job ∈ (s.table .client).jobs ∧ job.stage = .send call then
        sendConnect link s job call choice delivery
      else none
  | .sendReply job delivery =>
      if job ∈ (s.table .server).jobs ∧ job.stage.replies then sendReply link s job delivery
      else none
  | .sendClose side job delivered =>
      if job ∈ (s.table side).jobs then sendClose link s side job delivered else none
  | .remoteCloseWork side fd =>
      (sessStep (link.config side) (s.table side) (.remoteCloseWork fd)).map (s.setTable side)
  | .closeUnknowWork side fd delivered =>
      (sessStep (link.config side) (s.table side) (.closeUnknowWork fd)).map fun t =>
        hdcdrvCloseRemoteSession link (s.setTable side t) side ((s.table side).sessions fd)
          delivered

/-- Two drivers after their initialisation. -/
def pairMachine : Machine PairState PairAct where
  init s :=
    (∀ side, (sessMachine (link.config side)).init (s.table side)) ∧
      (s.table .client).uniqueVal = 0 ∧ s.connected = [] ∧ s.accepted = [] ∧ s.changed = [] ∧
      ∀ side conn, s.value side conn = none
  step := pairStep link

end OpiaiKernel.Hdc
