import OpiaiKernel.Errno
import OpiaiKernel.Lib.Ring
import OpiaiKernel.Lib.Word

/-!
# The logic completion queue

A logic CQ is a ring of completion entries that an interrupt handler fills and
user threads receive from.  A match CQE is delivered only to a receive with its
stream and task id, the others to any receive.  The entry size is that of the
CQE structure of the queue's version, so that the memory of the queue is a
function from positions to entries.

The functions are translated from `trs_logic_cq.c` under their own names.  What
`copy_to_user` returns, the number of bytes that it could not copy, is an
argument.
-/

namespace OpiaiKernel.Trs

/-- `struct trs_logic_cqe_v1` -/
structure LogicCqeV1 where
  phase : BitVec 1
  sop : BitVec 1
  mop : BitVec 1
  eop : BitVec 1
  logicCqId : BitVec 12
  streamId : UInt16
  taskId : UInt16
  errorType : UInt8
  matchFlag : UInt8
  errorCode : UInt32
  reserved1 : UInt32
  deriving DecidableEq

/-- An entry of the first version, up to what the queue does not read. -/
def cqeV1 (matchFlag : UInt8) (streamId taskId : UInt16) : LogicCqeV1 where
  phase := 0
  sop := 0
  mop := 0
  eop := 0
  logicCqId := 0
  streamId := streamId
  taskId := taskId
  errorType := 0
  matchFlag := matchFlag
  errorCode := 0
  reserved1 := 0

/-- `struct trs_logic_cqe` -/
structure LogicCqeV2 where
  streamId : UInt16
  taskId : UInt16
  errorCode : UInt32
  errorType : UInt8
  sqeType : UInt8
  sqId : UInt16
  sqHead : UInt16
  matchFlag : BitVec 1
  dropFlag : BitVec 1
  errorBit : BitVec 1
  accError : BitVec 1
  reserved0 : BitVec 12
  timeStamp : UInt64
  enqueTimestamp : UInt64
  deriving DecidableEq

/-- What the queue reads in an entry of either version. -/
class LogicCqe (α : Type) where
  matchFlag : α → ℕ
  streamId : α → ℕ
  taskId : α → ℕ

instance : LogicCqe LogicCqeV1 where
  matchFlag c := c.matchFlag.toNat
  streamId c := c.streamId.toNat
  taskId c := c.taskId.toNat

instance : LogicCqe LogicCqeV2 where
  matchFlag c := c.matchFlag.toNat
  streamId c := c.streamId.toNat
  taskId c := c.taskId.toNat

/-- An entry together with the serial number of its enqueue. -/
instance {α : Type} [LogicCqe α] : LogicCqe (ℕ × α) where
  matchFlag c := LogicCqe.matchFlag c.2
  streamId c := LogicCqe.streamId c.2
  taskId c := LogicCqe.taskId c.2

structure LogicCq (α : Type) where
  valid : Bool
  head : ℕ
  tail : ℕ
  cqDepth : ℕ
  addr : ℕ → α

/-- The request fields of `struct halReportRecvInfo`; `version` is `res[0]`. -/
structure ReportRecvInfo where
  streamId : ℕ
  taskId : ℕ
  cqeNum : ℕ
  timeout : ℤ
  version : ℕ
  deriving DecidableEq

/-- A failed receive returns an error code, or what `copy_to_user` left. -/
inductive RecvErr
  | errno (e : Errno)
  | uncopied (bytes : ℕ)
  deriving DecidableEq

variable {α : Type} [LogicCqe α]

/-- `trs_logic_is_cqe_need_match` -/
def isCqeNeedMatch (cqe : α) : Prop := LogicCqe.matchFlag cqe = 1

/-- `trs_logic_is_cqe_match` -/
def isCqeMatch (cqe : α) (streamId taskId : ℕ) : Prop :=
  LogicCqe.streamId cqe = streamId ∧ LogicCqe.taskId cqe = taskId

instance (cqe : α) : Decidable (isCqeNeedMatch cqe) :=
  inferInstanceAs (Decidable (_ = _))

instance (cqe : α) (streamId taskId : ℕ) : Decidable (isCqeMatch cqe streamId taskId) :=
  inferInstanceAs (Decidable (_ ∧ _))

namespace LogicCq

def isEmpty (cq : LogicCq α) : Prop := cq.tail = cq.head

def isFull (cq : LogicCq α) : Prop := Word.add 32 cq.tail 1 % cq.cqDepth = cq.head

instance (cq : LogicCq α) : Decidable cq.isEmpty := inferInstanceAs (Decidable (_ = _))

instance (cq : LogicCq α) : Decidable cq.isFull := inferInstanceAs (Decidable (_ = _))

/-- The loop of `trs_logic_cq_get_match_copy_range` from position `pos` on, with
the number of entries left and the range found so far. -/
def matchScan (addr : ℕ → α) (para : ReportRecvInfo) (reportCnt : ℕ) :
    (pos left searchStart searchNum : ℕ) → ℕ × ℕ
  | _, 0, searchStart, searchNum => (searchStart, searchNum)
  | pos, left + 1, searchStart, searchNum =>
      if isCqeNeedMatch (addr pos) then
        if isCqeMatch (addr pos) para.streamId para.taskId then
          (if searchNum = 0 then pos else searchStart, searchNum + 1)
        else if searchNum ≠ 0 then (searchStart, searchNum)
        else if searchNum ≥ reportCnt then (searchStart, searchNum)
        else matchScan addr para reportCnt (pos + 1) left searchStart searchNum
      else
        let searchStart := if searchNum = 0 then pos else searchStart
        if searchNum + 1 ≥ reportCnt then (searchStart, searchNum + 1)
        else matchScan addr para reportCnt (pos + 1) left searchStart (searchNum + 1)

/-- The first position and the number of the entries to report. -/
def getMatchCopyRange (cq : LogicCq α) (para : ReportRecvInfo) (cqeStart cqeEnd : ℕ) : ℕ × ℕ :=
  let cqeCnt := Word.sub 32 cqeEnd cqeStart
  matchScan cq.addr para (min cqeCnt para.cqeNum) cqeStart cqeCnt 0 0

/-- The arguments of one call of `trs_logic_cq_move_cqes`. -/
structure Move where
  srcPos : ℕ
  dstPos : ℕ
  num : ℕ
  deriving DecidableEq

def moveCqes (cq : LogicCq α) (m : Move) : LogicCq α :=
  { cq with addr := Ring.blit cq.addr m.srcPos m.dstPos m.num }

/-- The calls of `trs_logic_cq_move_cqes` that `trs_logic_cq_eliminate_holes`
makes, in their order. -/
def holeMoves (cqDepth head start reportCnt : ℕ) (rollback : Bool) : List Move :=
  let num := if rollback then start else Word.sub 32 start head
  let srcPos := if rollback then 0 else head
  let dstPos := Word.add 32 srcPos reportCnt
  let first := if num ≠ 0 then [⟨srcPos, dstPos, num⟩] else []
  if rollback then
    let num₂ := min reportCnt (Word.sub 32 cqDepth head)
    let num₃ := Word.sub 32 (Word.sub 32 cqDepth head) num₂
    first ++ ⟨Word.sub 32 cqDepth num₂, Word.sub 32 reportCnt num₂, num₂⟩ ::
      if num₃ = 0 then [] else [⟨head, Word.sub 32 cqDepth num₃, num₃⟩]
  else first

def moveAll (cq : LogicCq α) (moves : List Move) : LogicCq α := moves.foldl moveCqes cq

def eliminateHoles (cq : LogicCq α) (start reportCnt : ℕ) (rollback : Bool) : LogicCq α :=
  cq.moveAll (holeMoves cq.cqDepth cq.head start reportCnt rollback)

/-- The start, the number and the `rollback` of the entries to report, for the
`tail` that the receive has read. -/
def matchRange (cq : LogicCq α) (para : ReportRecvInfo) (tail : ℕ) : ℕ × ℕ × Bool :=
  if tail > cq.head then
    let range := cq.getMatchCopyRange para cq.head tail
    (range.1, range.2, false)
  else
    let range := cq.getMatchCopyRange para cq.head cq.cqDepth
    if range.2 = 0 then
      let range := cq.getMatchCopyRange para 0 tail
      (range.1, range.2, true)
    else (range.1, range.2, false)

/-- The moves after a successful copy to the user. -/
def reportMoves (cq : LogicCq α) (start reportCnt : ℕ) (rollback : Bool) : List Move :=
  if cq.head ≠ start then holeMoves cq.cqDepth cq.head start reportCnt rollback else []

/-- The entries copied to the user, and the queue. -/
def matchCopy (cq : LogicCq α) (para : ReportRecvInfo) (uncopied : ℕ) :
    Except RecvErr (List α) × LogicCq α :=
  let (start, reportCnt, rollback) := cq.matchRange para cq.tail
  if reportCnt = 0 then (.error (.errno .EAGAIN), cq)
  else if uncopied ≠ 0 then (.error (.uncopied uncopied), cq)
  else
    (.ok (Ring.slice cq.addr start reportCnt), cq.moveAll (cq.reportMoves start reportCnt rollback))

def nonMatchCopy (cq : LogicCq α) (uncopied : ℕ) : Except RecvErr (List α) × LogicCq α :=
  let start := cq.head
  let reportCnt := if cq.tail > start then Word.sub 32 cq.tail start
    else Word.sub 32 cq.cqDepth start
  if uncopied ≠ 0 then (.error (.uncopied uncopied), cq)
  else (.ok (Ring.slice cq.addr start reportCnt), cq)

/-- The last step of a successful receive. -/
def headUpdate (cq : LogicCq α) (reportCqeNum : ℕ) : LogicCq α :=
  { cq with head := Word.add 32 cq.head reportCqeNum % cq.cqDepth }

def copyReport (cq : LogicCq α) (para : ReportRecvInfo) (uncopied : ℕ) :
    Except RecvErr (List α) × LogicCq α :=
  if cq.valid = false then (.error (.errno .EFAULT), cq)
  else if cq.isEmpty then (.error (.errno .EAGAIN), cq)
  else
    match if para.version = 1 then cq.matchCopy para uncopied else cq.nonMatchCopy uncopied with
    | (.error e, cq) => (.error e, cq)
    | (.ok cqes, cq) => (.ok cqes, cq.headUpdate cqes.length)

/-- The entry is stored at the tail. -/
def enqueStore (cq : LogicCq α) (cqe : α) : LogicCq α :=
  { cq with addr := Function.update cq.addr cq.tail cqe }

/-- The entry at the tail is published. -/
def enquePublish (cq : LogicCq α) : LogicCq α :=
  { cq with tail := Word.add 32 cq.tail 1 % cq.cqDepth }

/-- `trs_logic_cq_enque` up to the wakeup of the receivers. -/
def enque (cq : LogicCq α) (cqe : α) : Except Errno Unit × LogicCq α :=
  if cq.valid = false then (.error .EINVAL, cq)
  else if cq.isFull then (.error .EAGAIN, cq)
  else (.ok (), (cq.enqueStore cqe).enquePublish)

end LogicCq

end OpiaiKernel.Trs
