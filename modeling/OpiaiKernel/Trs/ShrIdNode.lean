import OpiaiKernel.Errno
import OpiaiKernel.Lib.Keyed
import OpiaiKernel.Lib.Machine
import OpiaiKernel.Lib.Word
import Mathlib.Algebra.BigOperators.Group.Finset.Basic
import Mathlib.Data.Fintype.Basic
import Mathlib.Data.Int.Notation
import Mathlib.Logic.Function.Basic

/-!
# Shared ids

A process shares a resource id under a name.  Its node holds a reference for
the creator and one for each open, and gives the id back when the last one is
dropped.  The creator lists the processes that may open the node.

The functions are translated from `trs_shr_id_node.c`.  Each call is one step.
The rollback of an open or a create, and the exit of a process, are further
calls of close and destroy.
-/

namespace OpiaiKernel.Trs

def shrIdNsmNameSize : ℕ := 65
def shrIdPidMaxNum : ℕ := 16
def shrIdTypeMax : ℤ := 2
def trsShrIdNodeMaxOpenNum : ℕ := (2 ^ 31 - 1 - shrIdPidMaxNum) / shrIdPidMaxNum

/-- The bytes of a name before the final zero. -/
abbrev ShrIdName := List UInt8

structure TrsIdInst where
  devid : ℕ
  tsid : ℕ
  deriving DecidableEq

structure ShrIdNodeOpAttr where
  inst : TrsIdInst
  resType : ℕ
  type : ℤ
  id : ℤ
  deriving DecidableEq

structure ShrIdNodeWlist where
  pid : ℤ
  setTime : ℕ
  openNum : ℕ
  deriving DecidableEq

/-- `struct shr_id_node`, with a serial number, the process that created it,
and who put whom on the list. -/
structure ShrIdNode where
  serial : ℕ
  creator : ℤ
  grants : List (ℤ × ℤ)
  name : ShrIdName
  attr : ShrIdNodeOpAttr
  pid : ℤ
  remote : Bool
  ref : ℕ
  wlist : Fin shrIdPidMaxNum → ShrIdNodeWlist

/-- A resource id that a node took. -/
structure ShrIdTaken where
  serial : ℕ
  inst : TrsIdInst
  resType : ℕ
  id : ℤ
  deriving DecidableEq

/-- The table, and the nodes that were released; what was taken from and put
back to the resource manager, and the nodes whose name was taken already. -/
structure ShrIdState where
  nodes : List ShrIdNode
  freed : List ShrIdNode
  refused : List ShrIdNode
  gets : List ShrIdTaken
  puts : List ShrIdTaken
  next : ℕ

/-- `time_after`, a signed comparison of 64-bit times. -/
def timeAfter (a b : ℕ) : Bool := 2 ^ 63 ≤ Word.sub 64 b a

namespace ShrIdNode

variable {node : ShrIdNode} {pid caller : ℤ}

def key (node : ShrIdNode) : ℤ × ShrIdName := (node.attr.type, node.name)

def taken (node : ShrIdNode) : ShrIdTaken where
  serial := node.serial
  inst := node.attr.inst
  resType := node.attr.resType
  id := node.attr.id

/-- `_shr_id_node_init` after `kzalloc`. -/
def init (serial : ℕ) (name : ShrIdName) (pid : ℤ) (now : ℕ) (attr : ShrIdNodeOpAttr)
    (remote : Bool) : ShrIdNode where
  serial := serial
  creator := pid
  grants := [(pid, pid)]
  name := name
  attr := attr
  pid := pid
  remote := remote
  ref := 1
  wlist i :=
    if i.val = 0 then { pid := pid, setTime := now, openNum := 0 }
    else { pid := 0, setTime := 0, openNum := 0 }

def findWlistIndex (node : ShrIdNode) (pid : ℤ) : Option (Fin shrIdPidMaxNum) :=
  (List.finRange shrIdPidMaxNum).find? fun i => (node.wlist i).pid = pid

def getIdleWlistIndex (node : ShrIdNode) : Option (Fin shrIdPidMaxNum) :=
  (List.finRange shrIdPidMaxNum).find? fun i => (node.wlist i).pid = 0

def setWlist (node : ShrIdNode) (i : Fin shrIdPidMaxNum) (w : ShrIdNodeWlist) : ShrIdNode :=
  { node with wlist := Function.update node.wlist i w }

/-- `_shr_id_node_set_pid`, called by `caller`. -/
def setPid (node : ShrIdNode) (caller pid : ℤ) (now : ℕ) : Option ShrIdNode :=
  match (node.findWlistIndex pid).or node.getIdleWlistIndex with
  | none => none
  | some i =>
      some { node.setWlist i { node.wlist i with pid := pid, setTime := now } with
        grants := (caller, pid) :: node.grants }

/-- The loop of `_shr_id_node_set_pids`; a pid comes with the time of its turn. -/
def setPidList (node : ShrIdNode) (caller : ℤ) :
    List (ℤ × ℕ) → ShrIdNode × Except Errno Unit
  | [] => (node, .ok ())
  | (pid, now) :: rest =>
      if pid = 0 ∨ node.pid = pid then node.setPidList caller rest
      else
        match node.setPid caller pid now with
        | none => (node, .error .ENODEV)
        | some node => node.setPidList caller rest

def setPids (node : ShrIdNode) (createPid : ℤ) (pids : List (ℤ × ℕ)) :
    ShrIdNode × Except Errno Unit :=
  if node.pid ≠ createPid then (node, .error .EACCES) else node.setPidList createPid pids

/-- The creator's pid is cleared, so that it does not destroy twice. -/
def uninit (node : ShrIdNode) (pid : ℤ) : Except Errno ShrIdNode :=
  if node.pid ≠ pid then .error .EACCES else .ok { node with pid := 0 }

/-- `_shr_id_node_open`. -/
def openBy (node : ShrIdNode) (pid : ℤ) (startTime : ℕ) : Except Errno ShrIdNode :=
  match node.findWlistIndex pid with
  | none => .error .EBUSY
  | some i =>
      -- a new process with the pid of one that exited
      if timeAfter startTime (node.wlist i).setTime then .error .ENODEV
      else if trsShrIdNodeMaxOpenNum ≤ (node.wlist i).openNum then .error .EFAULT
      else .ok (node.setWlist i { node.wlist i with openNum := (node.wlist i).openNum + 1 })

/-- `_shr_id_node_close`. -/
def closeBy (node : ShrIdNode) (pid : ℤ) : Except Errno ShrIdNode :=
  match node.findWlistIndex pid with
  | none => .error .EBUSY
  | some i =>
      if (node.wlist i).openNum = 0 then .error .EACCES
      else .ok (node.setWlist i { node.wlist i with openNum := (node.wlist i).openNum - 1 })

end ShrIdNode

namespace ShrIdState

def setNode (s : ShrIdState) (node : ShrIdNode) : ShrIdState :=
  { s with nodes := Keyed.modify ShrIdNode.key node.key (fun _ => node) s.nodes }

/-- `_shr_id_node_destroy` puts the id, unless the node is a remote one. -/
def putId (s : ShrIdState) (node : ShrIdNode) : ShrIdState :=
  if node.remote then s else { s with puts := node.taken :: s.puts }

end ShrIdState

def shrIdNodeFind (s : ShrIdState) (name : ShrIdName) (type : ℤ) : Option ShrIdNode :=
  Keyed.get ShrIdNode.key (type, name) s.nodes

/-- `ans` is the answer of the resource manager, which checks the id of a
remote node and otherwise takes a reference to it. -/
def shrIdNodeCreate (s : ShrIdState) (name : ShrIdName) (pid : ℤ) (now : ℕ)
    (attr : ShrIdNodeOpAttr) (remote : Bool) (ans : Except Errno Unit) :
    ShrIdState × Except Errno Unit :=
  match ans with
  | .error _ => (s, .error .ENODEV)
  | .ok _ =>
      let node := ShrIdNode.init s.next name pid now attr remote
      let s := { s with
        next := s.next + 1
        gets := if remote then s.gets else node.taken :: s.gets }
      match shrIdNodeFind s name attr.type with
      | some _ => ({ s with refused := node :: s.refused }.putId node, .error .EACCES)
      | none => ({ s with nodes := node :: s.nodes }, .ok ())

def shrIdNodeRelease (s : ShrIdState) (node : ShrIdNode) : ShrIdState :=
  { s with
    nodes := Keyed.remove ShrIdNode.key node.key s.nodes
    freed := node :: s.freed }.putId node

def shrIdNodeGet (s : ShrIdState) (name : ShrIdName) (type : ℤ) :
    Option (ShrIdState × ShrIdNode) :=
  if name.length = 0 ∨ shrIdNsmNameSize ≤ name.length then none
  else if shrIdTypeMax ≤ type ∨ type < 0 then none
  else
    match shrIdNodeFind s name type with
    | none => none
    | some node =>
        if node.ref = 0 then none
        else
          let node := { node with ref := node.ref + 1 }
          some (s.setNode node, node)

/-- The node is referred to by its key. -/
def shrIdNodePut (s : ShrIdState) (k : ℤ × ShrIdName) : ShrIdState :=
  match Keyed.get ShrIdNode.key k s.nodes with
  | none => s
  | some node =>
      let node := { node with ref := node.ref - 1 }
      if node.ref = 0 then shrIdNodeRelease s node else s.setNode node

def shrIdNodeSetPids (s : ShrIdState) (name : ShrIdName) (type createPid : ℤ)
    (pids : List (ℤ × ℕ)) : ShrIdState × Except Errno Unit :=
  match shrIdNodeGet s name type with
  | none => (s, .error .ENODEV)
  | some (s, node) =>
      let (node, ret) := node.setPids createPid pids
      (shrIdNodePut (s.setNode node) node.key, ret)

def shrIdNodeDestroy (s : ShrIdState) (name : ShrIdName) (type pid : ℤ) :
    ShrIdState × Except Errno Unit :=
  match shrIdNodeGet s name type with
  | none => (s, .ok ())
  | some (s, node) =>
      match node.uninit pid with
      | .error e => (shrIdNodePut s node.key, .error e)
      | .ok node => (shrIdNodePut (shrIdNodePut (s.setNode node) node.key) node.key, .ok ())

/-- A successful open keeps the reference, and returns the instance and the id. -/
def shrIdNodeOpen (s : ShrIdState) (name : ShrIdName) (type pid : ℤ) (startTime : ℕ) :
    ShrIdState × Except Errno (TrsIdInst × ℤ) :=
  match shrIdNodeGet s name type with
  | none => (s, .error .ENODEV)
  | some (s, node) =>
      match node.openBy pid startTime with
      | .error e => (shrIdNodePut s node.key, .error e)
      | .ok node => (s.setNode node, .ok (node.attr.inst, node.attr.id))

def shrIdNodeClose (s : ShrIdState) (name : ShrIdName) (type pid : ℤ) :
    ShrIdState × Except Errno Unit :=
  match shrIdNodeGet s name type with
  | none => (s, .error .ENODEV)
  | some (s, node) =>
      match node.closeBy pid with
      | .error e => (shrIdNodePut s node.key, .error e)
      | .ok node => (shrIdNodePut (shrIdNodePut (s.setNode node) node.key) node.key, .ok ())

/-- The calls of a process, which has a positive pid. -/
inductive ShrIdOp
  | create (name : ShrIdName) (pid : ℤ) (now : ℕ) (attr : ShrIdNodeOpAttr) (remote : Bool)
      (ans : Except Errno Unit)
  | open (name : ShrIdName) (type pid : ℤ) (startTime : ℕ)
  | close (name : ShrIdName) (type pid : ℤ)
  | destroy (name : ShrIdName) (type pid : ℤ)
  | setPids (name : ShrIdName) (type pid : ℤ) (pids : List (ℤ × ℕ))

def ShrIdOp.pid : ShrIdOp → ℤ
  | create _ pid _ _ _ _ | .open _ _ pid _ | close _ _ pid | destroy _ _ pid
  | setPids _ _ pid _ => pid

def ShrIdOp.exec (s : ShrIdState) : ShrIdOp → ShrIdState
  | create name pid now attr remote ans => (shrIdNodeCreate s name pid now attr remote ans).1
  | .open name type pid startTime => (shrIdNodeOpen s name type pid startTime).1
  | close name type pid => (shrIdNodeClose s name type pid).1
  | destroy name type pid => (shrIdNodeDestroy s name type pid).1
  | setPids name type pid pids => (shrIdNodeSetPids s name type pid pids).1

def shrIdInit : ShrIdState where
  nodes := []
  freed := []
  refused := []
  gets := []
  puts := []
  next := 0

def shrIdMachine : Machine ShrIdState ShrIdOp where
  init s := s = shrIdInit
  step s op := if 0 < op.pid then some (op.exec s) else none

end OpiaiKernel.Trs
