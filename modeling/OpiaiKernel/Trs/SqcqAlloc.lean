import Mathlib.Algebra.Ring.Int.Defs
import OpiaiKernel.Errno
import OpiaiKernel.Trs.ProcRecycle

/-!
# Allocation of a queue

A queue is a channel, the ids that the process owns for it, and the contexts of
its ids.  An allocation creates the channel, enters the ids, tells the device,
and initialises the contexts last; a failure on the way has to take back what
was done.  The functions are translated from `trs_hw_sqcq.c`, `trs_sw_sqcq.c`
and `trs_sqcq_ctx.h`; the answers of the channel layer, of the device and of the
map of the process are arbitrary.
-/

namespace OpiaiKernel.Trs.SqcqAlloc

open Recycle (trsHwCq trsSwSq trsSwCq trsLogicCq)

def trsStream : ℕ := 0

def LOGIC_CQE_VERSION_V2 : ℕ := 2

def TSDRV_FLAG_REUSE_CQ : ℕ := 1

def TSDRV_FLAG_REUSE_SQ : ℕ := 2

def U32_MAX : ℕ := 2 ^ 32 - 1

/-- `struct halSqCqInputInfo`, of `info` the first word. -/
structure HalSqCqInputInfo where
  type : ℕ
  flag : ℕ
  sqId : ℕ
  cqId : ℕ
  sqeSize : ℕ
  sqeDepth : ℕ
  info : ℕ

def HalSqCqInputInfo.reuseCq (para : HalSqCqInputInfo) : Bool := para.flag.testBit 0

def HalSqCqInputInfo.reuseSq (para : HalSqCqInputInfo) : Bool := para.flag.testBit 1

/-- What a channel tells about its queues. -/
structure ChanInfo where
  sqid : ℕ
  cqid : ℕ
  sqPhyAddr : ℕ
  cqPhyAddr : ℕ

structure SqCtx where
  sqid : ℕ
  cqid : ℕ
  streamId : ℕ
  chanId : ℤ
  sqDepth : ℕ
  sqeSize : ℕ
  sqTail : ℕ
  sendFail : ℕ
  type : ℕ
  flag : ℕ
  status : ℕ

structure CqCtx where
  logicCqid : ℕ
  chanId : ℤ

structure StreamCtx where
  sq : ℕ
  cq : ℕ
  hostPid : ℕ

/-- An instance: the ids and their owners, the live channels (the table of channels
is one for all instances), and the contexts of the queues. -/
structure QueueInst where
  stars : Bool
  res : ResState
  idNum : ℕ → ℤ
  surportProcNum : ℤ
  chans : ℤ → Option ChanInfo
  sqCtx : ℕ → SqCtx
  cqCtx : ℕ → CqCtx
  swSqCtx : ℕ → SqCtx
  swCqCtx : ℕ → CqCtx
  cqeVerion : ℕ → ℕ
  streamCtx : ℕ → StreamCtx

/-- What the creation of a channel comes to. -/
abbrev ChanAnswer := Except Errno (ℤ × ChanInfo)

/-- The creations of the (first) channel and of a CQ channel of its own, the
notice of the device, and the remap. -/
structure Answers where
  chan : ChanAnswer
  cqChan : ChanAnswer
  notice : Except Errno Unit
  remap : Except Errno Unit

/-- What an allocation returns, with its input and the instance afterwards. -/
abbrev AllocResult := Except Errno Unit × HalSqCqInputInfo × QueueInst

def trsSqCtxInit (ctx : SqCtx) (para : HalSqCqInputInfo) (streamId : ℕ) (chanId : ℤ) : SqCtx where
  sqid := para.sqId
  cqid := para.cqId
  streamId := streamId
  chanId := chanId
  sqDepth := para.sqeDepth
  sqeSize := para.sqeSize
  sqTail := 0
  sendFail := 0
  type := para.type
  flag := para.flag
  status := ctx.status

def trsSetSqStatus (ctx : SqCtx) (status : ℕ) : SqCtx := { ctx with status := status }

namespace QueueInst

variable (proc : TrsProc) (s : QueueInst)

/-- The id is in the range of its type and has no owner. -/
def isFree (res : TrsRes) : Bool := res.2 < s.res.maxId res.1 && (s.res.ids res).pid = 0

def trsProcHasRes (res : TrsRes) : Bool := trsIsResPidMatch s.res proc res

def trsProcAddRes (res : TrsRes) : Option QueueInst :=
  if s.isFree res then some { s with res := Trs.trsProcAddRes s.res proc res } else none

def trsProcDelRes (res : TrsRes) : QueueInst :=
  if s.trsProcHasRes proc res then
    let t := Trs.trsProcDelRes s.res proc res
    { s with res := trsResPut { t with freeing := t.freeing.erase res } res }
  else s

def trsIsProcResLimited (resType : ℕ) : Bool :=
  (s.idNum resType - s.res.useNum resType) % 2 ^ 32 < s.surportProcNum &&
    0 < s.res.currentIdNum proc resType

def addChan (id : ℤ) (chan : ChanInfo) : QueueInst :=
  { s with chans := Function.update s.chans id (some chan) }

/-- The id of a channel is one that no live channel has. -/
def halKernelTrsChanCreate : ChanAnswer → Except Errno (ℤ × ChanInfo)
  | .error e => .error e
  | .ok (id, chan) => if 0 ≤ id ∧ (s.chans id).isNone then .ok (id, chan) else .error .EFAULT

def halKernelTrsChanDestroy (id : ℤ) : QueueInst :=
  { s with chans := Function.update s.chans id none }

def trsSqcqRegMap (streamId sqid cqid : ℕ) : QueueInst :=
  { s with streamCtx := Function.update s.streamCtx streamId ⟨sqid, cqid, proc.pid⟩ }

/-- A channel is created and the process owns its id. -/
def allocChan (resType : ℕ) (idOf : ChanInfo → ℕ) (answer : ChanAnswer) :
    Except (Errno × QueueInst) (ℤ × ChanInfo × QueueInst) :=
  match s.halKernelTrsChanCreate answer with
  | .error e => .error (e, s)
  | .ok (id, chan) =>
      match (s.addChan id chan).trsProcAddRes proc (resType, idOf chan) with
      | none => .error (.EINVAL, (s.addChan id chan).halKernelTrsChanDestroy id)
      | some t => .ok (id, chan, t)

/-- A channel is created and the process owns both of its ids: what the pair mode
and the software queues have in common. -/
def allocPair (sqType cqType : ℕ) (answer : ChanAnswer) :
    Except (Errno × QueueInst) (ℤ × ChanInfo × QueueInst) :=
  if s.trsIsProcResLimited proc sqType then .error (.ENOSPC, s)
  else
    match s.allocChan proc sqType ChanInfo.sqid answer with
    | .error r => .error r
    | .ok (id, chan, t) =>
        match t.trsProcAddRes proc (cqType, chan.cqid) with
        | none =>
            .error (.EINVAL,
              (t.trsProcDelRes proc (sqType, chan.sqid)).halKernelTrsChanDestroy id)
        | some u => .ok (id, chan, u)

/-- The contexts of a new hardware SQ, which is then working. -/
def hwSqInit (para : HalSqCqInputInfo) (streamId sqid : ℕ) (chanId : ℤ) : QueueInst :=
  { s with
    sqCtx := Function.update s.sqCtx sqid
      (trsSetSqStatus (trsSqCtxInit (s.sqCtx sqid) para streamId chanId) 1) }

def hwCqInit (cqid : ℕ) (chanId : ℤ) : QueueInst :=
  { s with cqCtx := Function.update s.cqCtx cqid ⟨U32_MAX, chanId⟩ }

/-- `trs_hw_sqcq_alloc_pair`. -/
def trsHwSqcqAllocPair (ans : Answers) (para : HalSqCqInputInfo) : AllocResult :=
  if para.reuseSq || para.reuseCq || para.sqeSize ≠ 64 then (.error .EINVAL, para, s)
  else
    match s.allocPair proc trsHwSq trsHwCq ans.chan with
    | .error (e, t) => (.error e, para, t)
    | .ok (id, chan, t) =>
        let para := { para with sqId := chan.sqid, cqId := chan.cqid }
        let t := (t.hwSqInit para para.info chan.sqid id).hwCqInit chan.cqid id
        (.ok (), para, t.trsSqcqRegMap proc para.info chan.sqid chan.cqid)

/-- `non_pair_mode_alloc_para_check`. -/
def nonPairModeAllocParaCheck (para : HalSqCqInputInfo) : Bool :=
  !(para.reuseSq && !para.reuseCq) &&
    (!para.reuseSq || s.trsProcHasRes proc (trsHwSq, para.sqId)) &&
    (!para.reuseCq || s.trsProcHasRes proc (trsHwCq, para.cqId))

def trsHwSqcqAllocSqChan (answer : ChanAnswer) :
    Except (Errno × QueueInst) (ℤ × ChanInfo × QueueInst) :=
  if s.trsIsProcResLimited proc trsHwSq then .error (.ENOSPC, s)
  else s.allocChan proc trsHwSq ChanInfo.sqid answer

def trsHwSqcqAllocCqChan (answer : ChanAnswer) :
    Except (Errno × QueueInst) (ℤ × ChanInfo × QueueInst) :=
  s.allocChan proc trsHwCq ChanInfo.cqid answer

def trsHwSqcqFreeSqChan (sqid : ℕ) : QueueInst :=
  let t := (s.trsProcDelRes proc (trsHwSq, sqid)).halKernelTrsChanDestroy (s.sqCtx sqid).chanId
  { t with sqCtx := Function.update t.sqCtx sqid { t.sqCtx sqid with chanId := -1 } }

def trsHwSqcqFreeCqChan (cqid : ℕ) : QueueInst :=
  let t := (s.trsProcDelRes proc (trsHwCq, cqid)).halKernelTrsChanDestroy (s.cqCtx cqid).chanId
  { t with cqCtx := Function.update t.cqCtx cqid { t.cqCtx cqid with chanId := -1 } }

/-- The local `sq_info` or `cq_info` with its channel; a reused queue has no
address, and its channel is not read. -/
structure QueueInfo where
  id : ℕ
  phyAddr : ℕ
  chanId : ℤ

/-- The first part of `trs_hw_sqcq_alloc_non_pair`: a new SQ or the given one. -/
def nonPairSq (answer : ChanAnswer) (para : HalSqCqInputInfo) :
    Except (Errno × QueueInst) (QueueInfo × QueueInst) :=
  if para.reuseSq then .ok (⟨para.sqId, 0, -1⟩, s)
  else
    match s.trsHwSqcqAllocSqChan proc answer with
    | .error r => .error r
    | .ok (id, chan, t) => .ok (⟨chan.sqid, chan.sqPhyAddr, id⟩, t)

/-- The second part: a new CQ or the given one. -/
def nonPairCq (answer : ChanAnswer) (para : HalSqCqInputInfo) :
    Except (Errno × QueueInst) (QueueInfo × QueueInst) :=
  if para.reuseCq then .ok (⟨para.cqId, 0, -1⟩, s)
  else
    match s.trsHwSqcqAllocCqChan proc answer with
    | .error r => .error r
    | .ok (id, chan, t) => .ok (⟨chan.cqid, chan.cqPhyAddr, id⟩, t)

def setCqid (sqid cqid : ℕ) : QueueInst :=
  { s with sqCtx := Function.update s.sqCtx sqid { s.sqCtx sqid with cqid := cqid } }

/-- The rollback after the notice failed. -/
def freeNew (para : HalSqCqInputInfo) (sqid cqid : ℕ) : QueueInst :=
  let t := if para.reuseSq then s else s.trsHwSqcqFreeSqChan proc sqid
  if para.reuseCq then t else t.trsHwSqcqFreeCqChan proc cqid

/-- `trs_hw_sqcq_alloc_non_pair`. -/
def trsHwSqcqAllocNonPair (ans : Answers) (para : HalSqCqInputInfo) : AllocResult :=
  if s.nonPairModeAllocParaCheck proc para = false then (.error .EINVAL, para, s)
  else
    match s.nonPairSq proc ans.chan para with
    | .error (e, t) => (.error e, { para with flag := TSDRV_FLAG_REUSE_CQ }, t)
    | .ok (sq, t) =>
        match t.nonPairCq proc ans.cqChan para with
        | .error (e, u) =>
            (.error e, { para with sqId := sq.id, flag := TSDRV_FLAG_REUSE_SQ },
              if sq.phyAddr ≠ 0 then u.trsHwSqcqFreeSqChan proc sq.id else u)
        | .ok (cq, u) =>
            let u := u.setCqid sq.id cq.id
            let para := { para with sqId := sq.id, cqId := cq.id }
            match ans.notice with
            | .error e => (.error e, para, u.freeNew proc para sq.id cq.id)
            | .ok () =>
                let u := if sq.phyAddr ≠ 0 then u.hwSqInit para para.info sq.id sq.chanId else u
                let u := if cq.phyAddr ≠ 0 then u.hwCqInit cq.id cq.chanId else u
                (.ok (), para, u.trsSqcqRegMap proc para.info sq.id cq.id)

/-- `trs_hw_sqcq_alloc`. -/
def trsHwSqcqAlloc (ans : Answers) (para : HalSqCqInputInfo) : AllocResult :=
  if s.trsProcHasRes proc (trsStream, para.info) = false then (.error .EINVAL, para, s)
  else if s.stars then s.trsHwSqcqAllocPair proc ans para
  else s.trsHwSqcqAllocNonPair proc ans para

/-- `trs_sw_sqcq_alloc`. -/
def trsSwSqcqAlloc (ans : Answers) (para : HalSqCqInputInfo) : AllocResult :=
  if s.trsProcHasRes proc (trsLogicCq, para.info) = false then (.error .EINVAL, para, s)
  else
    match s.allocPair proc trsSwSq trsSwCq ans.chan with
    | .error (e, t) => (.error e, para, t)
    | .ok (id, chan, t) =>
        let para := { para with sqId := chan.sqid, cqId := chan.cqid }
        let ctx := trsSqCtxInit (t.swSqCtx chan.sqid) para U32_MAX id
        let t := { t with
          swSqCtx := Function.update t.swSqCtx chan.sqid ctx
          swCqCtx := Function.update t.swCqCtx chan.cqid ⟨para.info, id⟩
          cqeVerion := Function.update t.cqeVerion para.info LOGIC_CQE_VERSION_V2 }
        match ans.remap with
        | .error e => (.error e, para, t)
        | .ok () =>
            let ctx := trsSetSqStatus (t.swSqCtx chan.sqid) 1
            (.ok (), para, { t with swSqCtx := Function.update t.swSqCtx chan.sqid ctx })

end QueueInst

open QueueInst

/-- The types of `trs_sqcq_alloc_handles` with a channel of their own. -/
inductive DrvSqCqType
  | DRV_NORMAL_TYPE
  | DRV_CTRL_TYPE

/-- A call of an entry point, with what it is answered. -/
structure AllocCall where
  proc : TrsProc
  type : DrvSqCqType
  para : HalSqCqInputInfo
  ans : Answers

variable {s t : QueueInst} {proc : TrsProc} {call : AllocCall} {para : HalSqCqInputInfo}

/-- `trs_sqcq_alloc_handles`. -/
def trsSqcqAlloc (s : QueueInst) (call : AllocCall) : AllocResult :=
  match call.type with
  | .DRV_NORMAL_TYPE => s.trsHwSqcqAlloc call.proc call.ans call.para
  | .DRV_CTRL_TYPE => s.trsSwSqcqAlloc call.proc call.ans call.para

/-- The id has no owner, and it is one of a channel that the call asks for. -/
def Created (s : QueueInst) (call : AllocCall) (res : TrsRes) : Prop :=
  (s.res.ids res).pid = 0 ∧
    match call.type with
    | .DRV_NORMAL_TYPE =>
        (call.para.reuseSq = false ∧
          ∃ id chan, call.ans.chan = .ok (id, chan) ∧ res = (trsHwSq, chan.sqid)) ∨
        (call.para.reuseCq = false ∧
          ∃ id chan, (if s.stars then call.ans.chan else call.ans.cqChan) = .ok (id, chan) ∧
            res = (trsHwCq, chan.cqid))
    | .DRV_CTRL_TYPE =>
        ∃ id chan, call.ans.chan = .ok (id, chan) ∧
          (res = (trsSwSq, chan.sqid) ∨ res = (trsSwCq, chan.cqid))

/-- The live channels, the ids of every process, and the contexts of the queues
that the call did not create are as before. -/
structure Kept (s : QueueInst) (call : AllocCall) (t : QueueInst) : Prop where
  chans : t.chans = s.chans
  owned : ∀ p res, p.pid ≠ 0 → t.trsProcHasRes p res = s.trsProcHasRes p res
  sqCtx : ∀ x, ¬ Created s call (trsHwSq, x) → t.sqCtx x = s.sqCtx x
  cqCtx : ∀ x, ¬ Created s call (trsHwCq, x) → t.cqCtx x = s.cqCtx x
  swSqCtx : ∀ x, ¬ Created s call (trsSwSq, x) → t.swSqCtx x = s.swSqCtx x
  swCqCtx : ∀ x, ¬ Created s call (trsSwCq, x) → t.swCqCtx x = s.swCqCtx x
  cqeVerion : t.cqeVerion = s.cqeVerion

/-- An allocation that returns an error changes nothing. -/
def AllOrNothing (s : QueueInst) (call : AllocCall) : Prop :=
  ∀ e, (trsSqcqAlloc s call).1 = .error e → Kept s call (trsSqcqAlloc s call).2.2

/-- The channel that a creation brings, if it also gets its id. -/
def QueueInst.gets (s : QueueInst) (resType : ℕ) (idOf : ChanInfo → ℕ) :
    ChanAnswer → Option (ℤ × ChanInfo)
  | .error _ => none
  | .ok (id, chan) =>
      if 0 ≤ id ∧ (s.chans id).isNone ∧ s.isFree (resType, idOf chan) then some (id, chan)
      else none

/-- A new SQ has the channel `id`: the contexts of the queues happen to name the
channels that the rollback has to destroy. -/
def SqSound (s : QueueInst) (call : AllocCall) (id : ℤ) (chan : ChanInfo) : Prop :=
  if call.para.reuseCq then
    call.ans.notice = .ok () ∨ (s.sqCtx chan.sqid).chanId = id
  else
    match (s.addChan id chan).gets trsHwCq ChanInfo.cqid call.ans.cqChan with
    | none => chan.sqPhyAddr ≠ 0 ∧ (s.sqCtx chan.sqid).chanId = id
    | some (cqChanId, cqChan) =>
        call.ans.notice = .ok () ∨
        ((s.sqCtx chan.sqid).chanId = id ∧ (s.cqCtx cqChan.cqid).chanId = cqChanId) ∨
        ((s.sqCtx chan.sqid).chanId = cqChanId ∧ (s.cqCtx cqChan.cqid).chanId = id)

/-- When a failed allocation changes nothing. -/
def Sound (s : QueueInst) (call : AllocCall) : Prop :=
  match call.type with
  | .DRV_NORMAL_TYPE =>
      s.stars = true ∨ s.trsProcHasRes call.proc (trsStream, call.para.info) = false ∨
      s.nonPairModeAllocParaCheck call.proc call.para = false ∨
      if call.para.reuseSq then
        call.ans.notice = .ok () ∨ (s.sqCtx call.para.sqId).cqid = call.para.cqId
      else
        s.trsIsProcResLimited call.proc trsHwSq = true ∨
        ∀ id chan, s.gets trsHwSq ChanInfo.sqid call.ans.chan = some (id, chan) →
          SqSound s call id chan
  | .DRV_CTRL_TYPE =>
      s.trsProcHasRes call.proc (trsLogicCq, call.para.info) = false ∨
      s.trsIsProcResLimited call.proc trsSwSq = true ∨
      ∀ id chan, s.gets trsSwSq ChanInfo.sqid call.ans.chan = some (id, chan) →
        s.isFree (trsSwCq, chan.cqid) = true → call.ans.remap = .ok ()

/-! ## The ids of a failed allocation -/

/-- No id has a new owner, and what had an owner is as before. -/
structure SameOwners (r u : ResState) : Prop where
  maxId : u.maxId = r.maxId
  ids : ∀ res, u.ids res = r.ids res ∨ ((r.ids res).pid = 0 ∧ (u.ids res).pid = 0)

theorem SameOwners.refl (r : ResState) : SameOwners r r := ⟨rfl, fun _ => .inl rfl⟩

theorem SameOwners.hasRes (h : SameOwners s.res t.res) {p : TrsProc} (hp : p.pid ≠ 0)
    (res : TrsRes) : t.trsProcHasRes p res = s.trsProcHasRes p res := by
  rw [trsProcHasRes, trsProcHasRes, trsIsResPidMatch, trsIsResPidMatch, h.maxId]
  rcases h.ids res with heq | ⟨hold, hnew⟩
  · rw [heq]
  · have hold : trsIsIdPidMatch (s.res.ids res) p = false := by
      rw [trsIsIdPidMatch, hold, decide_eq_false (Ne.symm hp)]
      rfl
    have hnew : trsIsIdPidMatch (t.res.ids res) p = false := by
      rw [trsIsIdPidMatch, hnew, decide_eq_false (Ne.symm hp)]
      rfl
    rw [hold, hnew]

/-- The entry of an id that a process has just got. -/
def entered (proc : TrsProc) : TrsResIds := ⟨.normal, proc.taskId, proc.pid, 1⟩

@[simp] theorem ref_entered : (entered proc).ref = 1 := rfl

/-- The entry of an id that a process has given up. -/
def left (proc : TrsProc) : TrsResIds := ⟨.del, proc.taskId, 0, 0⟩

theorem isFree_iff {res : TrsRes} :
    s.isFree res = true ↔ res.2 < s.res.maxId res.1 ∧ (s.res.ids res).pid = 0 := by
  rw [isFree, Bool.and_eq_true, decide_eq_true_eq, decide_eq_true_eq]

theorem addRes_ids (proc : TrsProc) {r : ResState} {res : TrsRes} (hlt : res.2 < r.maxId res.1)
    (hpid : (r.ids res).pid = 0) :
    (Trs.trsProcAddRes r proc res).ids = Function.update r.ids res (entered proc) ∧
      (Trs.trsProcAddRes r proc res).maxId = r.maxId := by
  rw [Trs.trsProcAddRes, if_neg (by omega)]
  exact ⟨rfl, rfl⟩

/-- Deleting an id that was entered once frees it. -/
theorem trsProcDelRes_spec {res : TrsRes} (hlt : res.2 < s.res.maxId res.1)
    (hids : s.res.ids res = entered proc) :
    ∃ r, s.trsProcDelRes proc res = { s with res := r } ∧ r.maxId = s.res.maxId ∧
      r.ids = Function.update s.res.ids res (left proc) := by
  have hhas : s.trsProcHasRes proc res = true := by
    rw [trsProcHasRes, trsIsResPidMatch, hids, decide_eq_true hlt]
    simp [trsIsIdPidMatch, entered]
  refine ⟨_, by rw [QueueInst.trsProcDelRes, if_pos hhas], ?_⟩
  have hmatch : trsIsResPidMatch s.res proc res = true := hhas
  simp only [Trs.trsProcDelRes, if_pos hmatch, trsResPut, ResState.setIds,
    ResState.addCurrentIdNum, ResState.addUseNum, Function.update_self, hids, ref_entered]
  rw [if_neg (by omega), if_neg (show ¬ (1 : ℤ) = 0 by decide),
    if_pos (show (1 : ℤ) - 1 ≤ 0 by decide)]
  exact ⟨rfl, by rw [Function.update_idem]; rfl⟩

/-! ## The steps of an allocation -/

/-- A channel and the id that a process got with it. -/
def QueueInst.withChan (s : QueueInst) (proc : TrsProc) (res : TrsRes) (id : ℤ)
    (chan : ChanInfo) : QueueInst :=
  { s.addChan id chan with res := Trs.trsProcAddRes s.res proc res }

section Steps

variable {ty : ℕ} {idOf : ChanInfo → ℕ} {answer : ChanAnswer} {id : ℤ} {chan : ChanInfo}

theorem gets_eq_some :
    s.gets ty idOf answer = some (id, chan) ↔
      answer = .ok (id, chan) ∧ 0 ≤ id ∧ s.chans id = none ∧ s.isFree (ty, idOf chan) = true := by
  rcases answer with e | ⟨c, ch⟩
  · exact ⟨fun h => (by cases h), fun h => (by cases h.1)⟩
  · rw [gets]
    split_ifs with hcond
    · obtain ⟨hpos, hnone, hfree⟩ := hcond
      constructor
      · intro h
        obtain ⟨rfl, rfl⟩ : c = id ∧ ch = chan := by simpa using h
        exact ⟨rfl, hpos, Option.isNone_iff_eq_none.mp hnone, hfree⟩
      · rintro ⟨h, -⟩
        obtain ⟨rfl, rfl⟩ : c = id ∧ ch = chan := by simpa using h
        rfl
    · refine ⟨fun h => (by cases h), ?_⟩
      rintro ⟨h, hpos, hnone, hfree⟩
      obtain ⟨rfl, rfl⟩ : c = id ∧ ch = chan := by simpa using h
      exact absurd ⟨hpos, Option.isNone_iff_eq_none.mpr hnone, hfree⟩ hcond

theorem allocChan_some (h : s.gets ty idOf answer = some (id, chan)) :
    s.allocChan proc ty idOf answer = .ok (id, chan, s.withChan proc (ty, idOf chan) id chan) := by
  obtain ⟨rfl, hpos, hnone, hfree⟩ := gets_eq_some.mp h
  have hfree : (s.addChan id chan).isFree (ty, idOf chan) = true := hfree
  rw [allocChan, halKernelTrsChanCreate, if_pos ⟨hpos, by rw [hnone]; rfl⟩]
  simp only [QueueInst.trsProcAddRes, if_pos hfree]
  rfl

/-- A channel that does not get its id is destroyed. -/
theorem allocChan_none (proc : TrsProc) (h : s.gets ty idOf answer = none) :
    ∃ e, s.allocChan proc ty idOf answer = .error (e, s) := by
  rcases answer with e | ⟨id, chan⟩
  · exact ⟨e, rfl⟩
  rw [allocChan, halKernelTrsChanCreate]
  split_ifs with hnew
  · have hfree : (s.addChan id chan).isFree (ty, idOf chan) ≠ true := by
      intro hfree
      rw [gets, if_pos ⟨hnew.1, hnew.2, hfree⟩] at h
      cases h
    refine ⟨.EINVAL, ?_⟩
    simp only [QueueInst.trsProcAddRes, if_neg hfree]
    have hnone : s.chans id = none := Option.isNone_iff_eq_none.mp hnew.2
    rw [QueueInst.halKernelTrsChanDestroy, addChan]
    simp only [Function.update_idem]
    rw [← hnone, Function.update_eq_self]
  · exact ⟨.EFAULT, rfl⟩

/-- The id of another type is as free with the new channel as before. -/
theorem isFree_withChan {res res' : TrsRes} (hne : res' ≠ res) (hfree : s.isFree res = true) :
    (s.withChan proc res id chan).isFree res' = s.isFree res' := by
  obtain ⟨hlt, hpid⟩ := isFree_iff.mp hfree
  obtain ⟨hids, hmax⟩ := addRes_ids proc hlt hpid
  change (decide (res'.2 < (Trs.trsProcAddRes s.res proc res).maxId res'.1) &&
    decide (((Trs.trsProcAddRes s.res proc res).ids res').pid = 0)) = _
  rw [hids, hmax, Function.update_of_ne hne]
  rfl

theorem gets_withChan (proc : TrsProc) {res : TrsRes} (hne : ty ≠ res.1)
    (hfree : s.isFree res = true) :
    (s.withChan proc res id chan).gets ty idOf answer =
      (s.addChan id chan).gets ty idOf answer := by
  rcases answer with e | ⟨c, ch⟩
  · rfl
  · rw [gets, gets, isFree_withChan (fun heq => hne (by rw [← heq])) hfree]
    rfl

end Steps

/-! ## Both ids of one channel -/

section Pair

variable {sqType cqType : ℕ} {answer : ChanAnswer} {id : ℤ} {chan : ChanInfo}

/-- An allocation of a channel with both ids either succeeds, or nothing is left
of it. -/
theorem allocPair_error (hne : cqType ≠ sqType)
    (h : ∀ id chan, s.gets sqType ChanInfo.sqid answer = some (id, chan) →
      s.trsIsProcResLimited proc sqType = false → s.isFree (cqType, chan.cqid) = false) :
    ∃ e r, s.allocPair proc sqType cqType answer = .error (e, { s with res := r }) ∧
      SameOwners s.res r := by
  rw [allocPair]
  cases hlim : s.trsIsProcResLimited proc sqType with
  | true => exact ⟨.ENOSPC, s.res, rfl, .refl _⟩
  | false =>
      rw [if_neg Bool.false_ne_true]
      cases hgets : s.gets sqType ChanInfo.sqid answer with
      | none =>
          obtain ⟨e, he⟩ := allocChan_none proc hgets
          exact ⟨e, s.res, by rw [he], .refl _⟩
      | some c =>
          obtain ⟨id, chan⟩ := c
          obtain ⟨-, -, hnone, hfree⟩ := gets_eq_some.mp hgets
          obtain ⟨hlt, hpid⟩ := isFree_iff.mp hfree
          obtain ⟨hids, hmax⟩ := addRes_ids proc hlt hpid
          rw [allocChan_some hgets]
          have hcq : (s.withChan proc (sqType, chan.sqid) id chan).isFree (cqType, chan.cqid) ≠
              true := by
            rw [isFree_withChan (fun heq => hne (congrArg Prod.fst heq)) hfree,
              h id chan hgets hlim]
            exact Bool.false_ne_true
          simp only [QueueInst.trsProcAddRes, if_neg hcq]
          have hlt' : chan.sqid <
              (s.withChan proc (sqType, chan.sqid) id chan).res.maxId sqType :=
            lt_of_lt_of_eq hlt (congrFun hmax.symm sqType)
          have hids' : (s.withChan proc (sqType, chan.sqid) id chan).res.ids
              (sqType, chan.sqid) = entered proc :=
            (congrFun hids _).trans (Function.update_self ..)
          obtain ⟨r, hdel, hrmax, hrids⟩ := trsProcDelRes_spec hlt' hids'
          refine ⟨.EINVAL, r, ?_, hrmax.trans hmax, fun res => ?_⟩
          · rw [hdel, QueueInst.halKernelTrsChanDestroy, withChan, addChan]
            simp only [Function.update_idem]
            rw [← hnone, Function.update_eq_self]
          · change r.ids = Function.update (Trs.trsProcAddRes s.res proc _).ids _ _ at hrids
            rw [hrids, hids, Function.update_idem]
            by_cases hres : res = (sqType, chan.sqid)
            · subst hres
              rw [Function.update_self]
              exact .inr ⟨hpid, rfl⟩
            · rw [Function.update_of_ne hres]
              exact .inl rfl

theorem allocPair_ok (hne : cqType ≠ sqType)
    (hgets : s.gets sqType ChanInfo.sqid answer = some (id, chan))
    (hlim : s.trsIsProcResLimited proc sqType = false)
    (hcq : s.isFree (cqType, chan.cqid) = true) :
    ∃ r, s.allocPair proc sqType cqType answer =
      .ok (id, chan, { s.addChan id chan with res := r }) := by
  obtain ⟨-, -, -, hfree⟩ := gets_eq_some.mp hgets
  rw [allocPair, hlim, if_neg Bool.false_ne_true, allocChan_some hgets]
  have hcq : (s.withChan proc (sqType, chan.sqid) id chan).isFree (cqType, chan.cqid) = true := by
    rw [isFree_withChan (fun heq => hne (congrArg Prod.fst heq)) hfree, hcq]
  simp only [QueueInst.trsProcAddRes, if_pos hcq]
  exact ⟨_, rfl⟩

/-- The two outcomes. -/
theorem allocPair_cases (s : QueueInst) (proc : TrsProc) (answer : ChanAnswer)
    (hne : cqType ≠ sqType) :
    (∃ id chan r, s.gets sqType ChanInfo.sqid answer = some (id, chan) ∧
      s.trsIsProcResLimited proc sqType = false ∧ s.isFree (cqType, chan.cqid) = true ∧
      s.allocPair proc sqType cqType answer =
        .ok (id, chan, { s.addChan id chan with res := r })) ∨
    ((∀ id chan, s.gets sqType ChanInfo.sqid answer = some (id, chan) →
      s.trsIsProcResLimited proc sqType = false → s.isFree (cqType, chan.cqid) = false) ∧
      ∃ e r, s.allocPair proc sqType cqType answer = .error (e, { s with res := r }) ∧
        SameOwners s.res r) := by
  by_cases hget : ∃ id chan, s.gets sqType ChanInfo.sqid answer = some (id, chan) ∧
    s.trsIsProcResLimited proc sqType = false ∧ s.isFree (cqType, chan.cqid) = true
  · obtain ⟨id, chan, hgets, hlim, hcq⟩ := hget
    obtain ⟨r, hpair⟩ := allocPair_ok hne hgets hlim hcq
    exact .inl ⟨id, chan, r, hgets, hlim, hcq, hpair⟩
  · have hno (id : ℤ) (chan : ChanInfo)
        (hgets : s.gets sqType ChanInfo.sqid answer = some (id, chan))
        (hlim : s.trsIsProcResLimited proc sqType = false) :
        s.isFree (cqType, chan.cqid) = false := by
      by_contra hcq
      exact hget ⟨id, chan, hgets, hlim, by simpa using hcq⟩
    exact .inr ⟨hno, allocPair_error hne hno⟩

end Pair

/-! ## The rollback -/

/-- An allocation on its way: the process holds the new ids of `L`, and apart from
these and from the channels all is as at the call. -/
structure Held (s : QueueInst) (call : AllocCall) (L : Set TrsRes) (u : QueueInst) : Prop where
  maxId : u.res.maxId = s.res.maxId
  ids : ∀ res ∉ L, u.res.ids res = s.res.ids res ∨
    ((s.res.ids res).pid = 0 ∧ (u.res.ids res).pid = 0)
  held : ∀ res ∈ L, s.isFree res = true ∧ u.res.ids res = entered call.proc
  sqCtx : ∀ x, ¬ Created s call (trsHwSq, x) → u.sqCtx x = s.sqCtx x
  cqCtx : ∀ x, ¬ Created s call (trsHwCq, x) → u.cqCtx x = s.cqCtx x
  swSqCtx : u.swSqCtx = s.swSqCtx
  swCqCtx : u.swCqCtx = s.swCqCtx
  cqeVerion : u.cqeVerion = s.cqeVerion

namespace Held

variable {L : Set TrsRes} {u : QueueInst} {res : TrsRes} {x : ℕ}

theorem start : Held s call ∅ s :=
  ⟨rfl, fun _ _ => .inl rfl, fun _ h => h.elim, fun _ _ => rfl, fun _ _ => rfl, rfl, rfl, rfl⟩

/-- With no id held, an error changes nothing but perhaps the channels. -/
theorem kept_iff (h : Held s call L u) (hL : L = ∅) : Kept s call u ↔ u.chans = s.chans := by
  subst hL
  refine ⟨Kept.chans, fun hchans => ⟨hchans, fun p res hp => ?_, h.sqCtx, h.cqCtx,
    fun x _ => congrFun h.swSqCtx x, fun x _ => congrFun h.swCqCtx x, h.cqeVerion⟩⟩
  have howners : SameOwners s.res u.res := ⟨h.maxId, fun res => h.ids res id⟩
  exact howners.hasRes hp res

theorem withChan (h : Held s call L u) (id : ℤ) (chan : ChanInfo) (hmem : res ∉ L)
    (hfree : s.isFree res = true) (hu : u.isFree res = true) :
    Held s call (insert res L) (u.withChan call.proc res id chan) := by
  obtain ⟨hlt, hpid⟩ := isFree_iff.mp hu
  obtain ⟨hids, hmax⟩ := addRes_ids call.proc hlt hpid
  refine { h with maxId := hmax.trans h.maxId, ids := fun r hr => ?_, held := fun r hr => ?_ }
  · change (Trs.trsProcAddRes u.res call.proc res).ids r = _ ∨ _ ∧
      ((Trs.trsProcAddRes u.res call.proc res).ids r).pid = 0
    have hne : r ≠ res := fun heq => hr (heq ▸ Set.mem_insert r L)
    rw [hids, Function.update_of_ne hne]
    exact h.ids r fun hmem => hr (Set.mem_insert_of_mem _ hmem)
  · change _ ∧ (Trs.trsProcAddRes u.res call.proc res).ids r = _
    rw [hids]
    rcases hr with rfl | hr
    · exact ⟨hfree, Function.update_self ..⟩
    · have hne : r ≠ res := fun heq => hmem (heq ▸ hr)
      rw [Function.update_of_ne hne]
      exact h.held r hr

theorem setCqid (h : Held s call L u) (hc : Created s call (trsHwSq, x)) (cqid : ℕ) :
    Held s call L (u.setCqid x cqid) := by
  refine { h with sqCtx := fun y hy => ?_ }
  have hne : y ≠ x := fun heq => hy (heq ▸ hc)
  exact (Function.update_of_ne hne ..).trans (h.sqCtx y hy)

/-- An id that is deleted is no longer held. -/
theorem delRes (h : Held s call L u) (hmem : res ∈ L) :
    ∃ r, u.trsProcDelRes call.proc res = { u with res := r } ∧
      Held s call (L \ {res}) { u with res := r } := by
  obtain ⟨hfree, hentered⟩ := h.held res hmem
  obtain ⟨hlt, hpid⟩ := isFree_iff.mp hfree
  obtain ⟨r, hdel, hmax, hids⟩ := trsProcDelRes_spec (by rw [h.maxId]; exact hlt) hentered
  refine ⟨r, hdel, ?_⟩
  refine { h with maxId := hmax.trans h.maxId, ids := fun r' hr => ?_, held := fun r' hr => ?_ }
  · change r.ids r' = _ ∨ _ ∧ (r.ids r').pid = 0
    rw [hids]
    by_cases heq : r' = res
    · subst heq
      rw [Function.update_self]
      exact .inr ⟨hpid, rfl⟩
    · rw [Function.update_of_ne heq]
      exact h.ids r' fun hmem => hr ⟨hmem, heq⟩
  · change _ ∧ r.ids r' = _
    rw [hids, Function.update_of_ne hr.2]
    exact h.held r' hr.1

/-- Freeing the SQ destroys the channel that its context names. -/
theorem freeSqChan (h : Held s call L u) (hmem : (trsHwSq, x) ∈ L)
    (hc : Created s call (trsHwSq, x)) :
    Held s call (L \ {(trsHwSq, x)}) (u.trsHwSqcqFreeSqChan call.proc x) ∧
      (u.trsHwSqcqFreeSqChan call.proc x).chans =
        Function.update u.chans (u.sqCtx x).chanId none ∧
      (u.trsHwSqcqFreeSqChan call.proc x).cqCtx = u.cqCtx := by
  obtain ⟨r, hdel, hheld⟩ := h.delRes hmem
  rw [trsHwSqcqFreeSqChan, hdel]
  refine ⟨{ hheld with sqCtx := fun y hy => ?_ }, rfl, rfl⟩
  have hne : y ≠ x := fun heq => hy (heq ▸ hc)
  exact (Function.update_of_ne hne ..).trans (hheld.sqCtx y hy)

theorem freeCqChan (h : Held s call L u) (hmem : (trsHwCq, x) ∈ L)
    (hc : Created s call (trsHwCq, x)) :
    Held s call (L \ {(trsHwCq, x)}) (u.trsHwSqcqFreeCqChan call.proc x) ∧
      (u.trsHwSqcqFreeCqChan call.proc x).chans =
        Function.update u.chans (u.cqCtx x).chanId none := by
  obtain ⟨r, hdel, hheld⟩ := h.delRes hmem
  rw [trsHwSqcqFreeCqChan, hdel]
  refine ⟨{ hheld with cqCtx := fun y hy => ?_ }, rfl⟩
  have hne : y ≠ x := fun heq => hy (heq ▸ hc)
  exact (Function.update_of_ne hne ..).trans (hheld.cqCtx y hy)

end Held

section Chans

variable {chans : ℤ → Option ChanInfo} {a b n m : ℤ} {chan chan' : ChanInfo}

theorem destroy_none (hn : chans n = none) : Function.update chans n none = chans := by
  rw [← hn, Function.update_eq_self]

/-- Destroying a channel undoes a creation exactly if it is the new channel. -/
theorem destroy_create_iff (hn : chans n = none) :
    Function.update (Function.update chans n (some chan)) a none = chans ↔ a = n := by
  constructor
  · intro h
    by_contra hne
    have := congrFun h n
    rw [Function.update_of_ne (Ne.symm hne), Function.update_self, hn] at this
    cases this
  · rintro rfl
    rw [Function.update_idem, destroy_none hn]

theorem create_ne (hn : chans n = none) : Function.update chans n (some chan) ≠ chans := by
  intro h
  have := congrFun h n
  rw [Function.update_self, hn] at this
  cases this

/-- Two destructions undo two creations exactly if they are of the new channels. -/
theorem destroy_create_two_iff (hn : chans n = none) (hm : chans m = none) (hne : m ≠ n) :
    Function.update (Function.update (Function.update (Function.update chans n (some chan)) m
      (some chan')) a none) b none = chans ↔ (a = n ∧ b = m) ∨ (a = m ∧ b = n) := by
  have hm' : Function.update chans n (some chan) m = none := by rw [Function.update_of_ne hne, hm]
  constructor
  · intro h
    have hn_mem : n = a ∨ n = b := by
      by_contra hnot
      push Not at hnot
      have := congrFun h n
      rw [Function.update_of_ne hnot.2, Function.update_of_ne hnot.1,
        Function.update_of_ne hne.symm, Function.update_self, hn] at this
      cases this
    have hm_mem : m = a ∨ m = b := by
      by_contra hnot
      push Not at hnot
      have := congrFun h m
      rw [Function.update_of_ne hnot.2, Function.update_of_ne hnot.1, Function.update_self,
        hm] at this
      cases this
    rcases hn_mem with rfl | rfl
    · exact .inl ⟨rfl, (hm_mem.resolve_left hne).symm⟩
    · exact .inr ⟨(hm_mem.resolve_right hne).symm, rfl⟩
  · rintro (⟨rfl, rfl⟩ | ⟨rfl, rfl⟩)
    · rw [Function.update_comm hne.symm, Function.update_idem, Function.update_comm hne,
        Function.update_idem, destroy_none hn, destroy_none hm]
    · rw [(destroy_create_iff hm').mpr rfl, (destroy_create_iff hn).mpr rfl]

end Chans

/-! ## When a failed allocation changes nothing -/

theorem allOrNothing_of_ok (h : (trsSqcqAlloc s call).1 = .ok ()) : AllOrNothing s call :=
  fun e he => by rw [h] at he; cases he

theorem allOrNothing_of_error {e : Errno} {p : HalSqCqInputInfo}
    (h : trsSqcqAlloc s call = (.error e, p, t)) : AllOrNothing s call ↔ Kept s call t := by
  rw [AllOrNothing, h]
  exact ⟨fun hkept => hkept e rfl, fun hkept _ _ => hkept⟩

theorem Kept.refl : Kept s call s := (Held.start.kept_iff rfl).mpr rfl

theorem Kept.of_sameOwners {r : ResState} (h : SameOwners s.res r) :
    Kept s call { s with res := r } :=
  ⟨rfl, fun _ res hp => h.hasRes hp res, fun _ _ => rfl, fun _ _ => rfl, fun _ _ => rfl,
    fun _ _ => rfl, rfl⟩

/-- An allocation that is refused at once. -/
theorem allOrNothing_of_refused {e : Errno} {p : HalSqCqInputInfo}
    (h : trsSqcqAlloc s call = (.error e, p, s)) : AllOrNothing s call :=
  (allOrNothing_of_error h).mpr .refl

/-- The pair mode takes everything back. -/
theorem allOrNothing_pair (htype : call.type = .DRV_NORMAL_TYPE)
    (hstream : s.trsProcHasRes call.proc (trsStream, call.para.info) = true)
    (hstars : s.stars = true) : AllOrNothing s call := by
  have halloc : trsSqcqAlloc s call = s.trsHwSqcqAllocPair call.proc call.ans call.para := by
    rw [trsSqcqAlloc, htype]
    simp only [trsHwSqcqAlloc, hstream, hstars, Bool.true_eq_false, if_false, if_true]
  rw [trsHwSqcqAllocPair] at halloc
  split_ifs at halloc with hcheck
  · exact allOrNothing_of_refused halloc
  · rcases allocPair_cases s call.proc call.ans.chan
      (show trsHwCq ≠ trsHwSq by decide) with ⟨id, chan, r, -, -, -, hpair⟩ | ⟨-, e, r, hpair, hsame⟩
    · refine allOrNothing_of_ok ?_
      rw [halloc, hpair]
    · rw [hpair] at halloc
      exact (allOrNothing_of_error halloc).mpr (.of_sameOwners hsame)

/-- A software queue stays when its remap fails. -/
theorem allOrNothing_sw_iff (htype : call.type = .DRV_CTRL_TYPE) :
    AllOrNothing s call ↔ Sound s call := by
  have hsound : Sound s call ↔
      s.trsProcHasRes call.proc (trsLogicCq, call.para.info) = false ∨
      s.trsIsProcResLimited call.proc trsSwSq = true ∨
      ∀ id chan, s.gets trsSwSq ChanInfo.sqid call.ans.chan = some (id, chan) →
        s.isFree (trsSwCq, chan.cqid) = true → call.ans.remap = .ok () := by
    rw [Sound, htype]
  have halloc : trsSqcqAlloc s call = s.trsSwSqcqAlloc call.proc call.ans call.para := by
    rw [trsSqcqAlloc, htype]
  rw [trsSwSqcqAlloc] at halloc
  rw [hsound]
  split_ifs at halloc with hlogic
  · exact ⟨fun _ => .inl hlogic, fun _ => allOrNothing_of_refused halloc⟩
  rcases allocPair_cases s call.proc call.ans.chan
    (show trsSwCq ≠ trsSwSq by decide) with
      ⟨id, chan, r, hgets, hlim, hcq, hpair⟩ | ⟨hno, e, r, hpair, hsame⟩
  · rw [hpair] at halloc
    cases hremap : call.ans.remap with
    | ok _ =>
        refine ⟨fun _ => .inr (.inr fun _ _ _ _ => rfl), fun _ => allOrNothing_of_ok ?_⟩
        rw [halloc, hremap]
    | error e =>
        rw [hremap] at halloc
        rw [allOrNothing_of_error halloc]
        refine ⟨fun hkept => ?_, ?_⟩
        · exact absurd hkept.chans (create_ne (gets_eq_some.mp hgets).2.2.1)
        · rintro (h | h | h)
          · exact absurd h hlogic
          · rw [hlim] at h
            cases h
          · cases h id chan hgets hcq
  · rw [hpair] at halloc
    refine ⟨fun _ => ?_, fun _ => (allOrNothing_of_error halloc).mpr (.of_sameOwners hsame)⟩
    by_cases hlim : s.trsIsProcResLimited call.proc trsSwSq = true
    · exact .inr (.inl hlim)
    · refine .inr (.inr fun id chan hgets hcq => ?_)
      rw [hno id chan hgets (by simpa using hlim)] at hcq
      cases hcq

section NonPair

variable {id : ℤ} {chan : ChanInfo}

theorem created_sq (htype : call.type = .DRV_NORMAL_TYPE) (hsq : call.para.reuseSq = false)
    (hgets : s.gets trsHwSq ChanInfo.sqid call.ans.chan = some (id, chan)) :
    Created s call (trsHwSq, chan.sqid) := by
  obtain ⟨hans, -, -, hfree⟩ := gets_eq_some.mp hgets
  refine ⟨(isFree_iff.mp hfree).2, ?_⟩
  rw [htype]
  exact .inl ⟨hsq, id, chan, hans, rfl⟩

theorem created_cq (htype : call.type = .DRV_NORMAL_TYPE) (hcq : call.para.reuseCq = false)
    (hstars : s.stars = false) (hans : call.ans.cqChan = .ok (id, chan))
    (hfree : s.isFree (trsHwCq, chan.cqid) = true) : Created s call (trsHwCq, chan.cqid) := by
  refine ⟨(isFree_iff.mp hfree).2, ?_⟩
  rw [htype, hstars]
  exact .inr ⟨hcq, id, chan, hans, rfl⟩

theorem sqCtx_setCqid (s : QueueInst) (x c : ℕ) :
    (s.setCqid x c).sqCtx x = { s.sqCtx x with cqid := c } := Function.update_self ..

/-- A reused SQ is no new one. -/
theorem not_created_of_reuseSq (htype : call.type = .DRV_NORMAL_TYPE)
    (hsq : call.para.reuseSq = true) (x : ℕ) : ¬ Created s call (trsHwSq, x) := by
  rintro ⟨-, h⟩
  rw [htype] at h
  rcases h with ⟨h, -⟩ | ⟨-, c, ch, -, h⟩
  · rw [hsq] at h
    cases h
  · cases congrArg Prod.fst h

/-- Both queues are reused: the context of the SQ keeps its CQ only if it is the
one of the call. -/
theorem allOrNothing_reuse_iff (htype : call.type = .DRV_NORMAL_TYPE)
    (halloc : trsSqcqAlloc s call = s.trsHwSqcqAllocNonPair call.proc call.ans call.para)
    (hcheck : s.nonPairModeAllocParaCheck call.proc call.para = true)
    (hsq : call.para.reuseSq = true) :
    AllOrNothing s call ↔
      call.ans.notice = .ok () ∨ (s.sqCtx call.para.sqId).cqid = call.para.cqId := by
  have hcq : call.para.reuseCq = true := by
    by_contra hcq
    rw [nonPairModeAllocParaCheck, hsq, Bool.eq_false_iff.mpr hcq] at hcheck
    cases hcheck
  have hnew : (call.para.flag.testBit 1) = true := hsq
  have hnew' : (call.para.flag.testBit 0) = true := hcq
  simp only [trsHwSqcqAllocNonPair, hcheck, Bool.true_eq_false, if_false, nonPairSq, hsq, if_true,
    nonPairCq, hcq] at halloc
  cases hnotice : call.ans.notice with
  | ok _ =>
      refine ⟨fun _ => .inl rfl, fun _ => allOrNothing_of_ok ?_⟩
      rw [halloc, hnotice]
  | error e =>
      simp only [hnotice, freeNew, HalSqCqInputInfo.reuseSq, HalSqCqInputInfo.reuseCq, hnew,
        hnew', if_true] at halloc
      rw [allOrNothing_of_error halloc]
      constructor
      · intro hkept
        have := hkept.sqCtx call.para.sqId (not_created_of_reuseSq htype hsq _)
        rw [sqCtx_setCqid] at this
        exact .inr (by rw [← this])
      · rintro (h | h)
        · cases h
        · have hsame : s.setCqid call.para.sqId call.para.cqId = s := by
            rw [setCqid, ← h, Function.update_eq_self]
          rw [hsame]
          exact .refl

/-- A new SQ with a reused CQ. -/
theorem allOrNothing_sq_iff (htype : call.type = .DRV_NORMAL_TYPE)
    (halloc : trsSqcqAlloc s call = s.trsHwSqcqAllocNonPair call.proc call.ans call.para)
    (hcheck : s.nonPairModeAllocParaCheck call.proc call.para = true)
    (hsq : call.para.reuseSq = false) (hcq : call.para.reuseCq = true)
    (hlim : s.trsIsProcResLimited call.proc trsHwSq = false)
    (hgets : s.gets trsHwSq ChanInfo.sqid call.ans.chan = some (id, chan)) :
    AllOrNothing s call ↔
      call.ans.notice = .ok () ∨ (s.sqCtx chan.sqid).chanId = id := by
  have hnew : (call.para.flag.testBit 1) = false := hsq
  have hnew' : (call.para.flag.testBit 0) = true := hcq
  obtain ⟨-, -, hnone, hfree⟩ := gets_eq_some.mp hgets
  have hcreated := created_sq htype hsq hgets
  simp only [trsHwSqcqAllocNonPair, hcheck, Bool.true_eq_false, if_false, nonPairSq, hsq,
    Bool.false_eq_true, trsHwSqcqAllocSqChan, hlim, allocChan_some hgets, nonPairCq, hcq,
    if_true] at halloc
  cases hnotice : call.ans.notice with
  | ok _ =>
      refine ⟨fun _ => .inl rfl, fun _ => allOrNothing_of_ok ?_⟩
      rw [halloc, hnotice]
  | error e =>
      simp only [hnotice, freeNew, HalSqCqInputInfo.reuseSq, HalSqCqInputInfo.reuseCq, hnew,
        hnew', Bool.false_eq_true, if_false, if_true] at halloc
      have hheld : Held s call _ _ :=
        (Held.start.withChan id chan (fun h => h) hfree hfree).setCqid hcreated
          call.para.cqId
      obtain ⟨hfreed, hchans, -⟩ := hheld.freeSqChan (Set.mem_insert ..) hcreated
      rw [allOrNothing_of_error halloc, hfreed.kept_iff (by simp), hchans]
      have hctx : ((QueueInst.setCqid (s.withChan call.proc (trsHwSq, chan.sqid) id chan)
          chan.sqid call.para.cqId).sqCtx chan.sqid).chanId = (s.sqCtx chan.sqid).chanId := by
        rw [sqCtx_setCqid]
        rfl
      rw [hctx]
      exact (destroy_create_iff hnone).trans ⟨.inr, fun h => h.resolve_left fun h => by cases h⟩

/-- A new SQ whose CQ cannot be created. -/
theorem allOrNothing_noCq_iff (htype : call.type = .DRV_NORMAL_TYPE)
    (halloc : trsSqcqAlloc s call = s.trsHwSqcqAllocNonPair call.proc call.ans call.para)
    (hcheck : s.nonPairModeAllocParaCheck call.proc call.para = true)
    (hsq : call.para.reuseSq = false) (hcq : call.para.reuseCq = false)
    (hlim : s.trsIsProcResLimited call.proc trsHwSq = false)
    (hgets : s.gets trsHwSq ChanInfo.sqid call.ans.chan = some (id, chan))
    (hcqGets : (s.addChan id chan).gets trsHwCq ChanInfo.cqid call.ans.cqChan = none) :
    AllOrNothing s call ↔ chan.sqPhyAddr ≠ 0 ∧ (s.sqCtx chan.sqid).chanId = id := by
  obtain ⟨-, -, hnone, hfree⟩ := gets_eq_some.mp hgets
  have hcreated := created_sq htype hsq hgets
  have htypes : trsHwCq ≠ trsHwSq := by decide
  rw [← gets_withChan call.proc htypes hfree] at hcqGets
  obtain ⟨e, he⟩ := allocChan_none call.proc hcqGets
  simp only [trsHwSqcqAllocNonPair, hcheck, Bool.true_eq_false, if_false, nonPairSq, hsq,
    Bool.false_eq_true, trsHwSqcqAllocSqChan, hlim, allocChan_some hgets, nonPairCq, hcq,
    trsHwSqcqAllocCqChan, he] at halloc
  have hheld : Held s call _ _ :=
    Held.start.withChan id chan (fun h => h) hfree hfree
  rw [allOrNothing_of_error halloc]
  by_cases haddr : chan.sqPhyAddr = 0
  · rw [if_neg (not_not.mpr haddr)]
    exact ⟨fun hkept => absurd hkept.chans (create_ne hnone), fun h => absurd haddr h.1⟩
  · obtain ⟨hfreed, hchans, -⟩ := hheld.freeSqChan (Set.mem_insert ..) hcreated
    rw [if_pos haddr, hfreed.kept_iff (by simp), hchans]
    exact (destroy_create_iff hnone).trans ⟨fun h => ⟨haddr, h⟩, fun h => h.2⟩

/-- A new SQ with a new CQ. -/
theorem allOrNothing_both_iff {cqChanId : ℤ} {cqChan : ChanInfo}
    (htype : call.type = .DRV_NORMAL_TYPE) (hstars : s.stars = false)
    (halloc : trsSqcqAlloc s call = s.trsHwSqcqAllocNonPair call.proc call.ans call.para)
    (hcheck : s.nonPairModeAllocParaCheck call.proc call.para = true)
    (hsq : call.para.reuseSq = false) (hcq : call.para.reuseCq = false)
    (hlim : s.trsIsProcResLimited call.proc trsHwSq = false)
    (hgets : s.gets trsHwSq ChanInfo.sqid call.ans.chan = some (id, chan))
    (hcqGets : (s.addChan id chan).gets trsHwCq ChanInfo.cqid call.ans.cqChan =
      some (cqChanId, cqChan)) :
    AllOrNothing s call ↔
      call.ans.notice = .ok () ∨
      ((s.sqCtx chan.sqid).chanId = id ∧ (s.cqCtx cqChan.cqid).chanId = cqChanId) ∨
      ((s.sqCtx chan.sqid).chanId = cqChanId ∧ (s.cqCtx cqChan.cqid).chanId = id) := by
  have hnew : (call.para.flag.testBit 1) = false := hsq
  have hnew' : (call.para.flag.testBit 0) = false := hcq
  obtain ⟨-, -, hnone, hfree⟩ := gets_eq_some.mp hgets
  obtain ⟨hans, -, hcqNone, hcqFree⟩ := gets_eq_some.mp hcqGets
  have hcqFree : s.isFree (trsHwCq, cqChan.cqid) = true := hcqFree
  have hcqNone : Function.update s.chans id (some chan) cqChanId = none := hcqNone
  have hne : cqChanId ≠ id := by
    rintro rfl
    rw [Function.update_self] at hcqNone
    cases hcqNone
  rw [Function.update_of_ne hne] at hcqNone
  have hcreated := created_sq htype hsq hgets
  have hcreatedCq := created_cq htype hcq hstars hans hcqFree
  have hty : (trsHwCq, cqChan.cqid) ≠ (trsHwSq, chan.sqid) := fun h => by
    cases congrArg Prod.fst h
  have htypes : trsHwCq ≠ trsHwSq := by decide
  rw [← gets_withChan call.proc htypes hfree] at hcqGets
  simp only [trsHwSqcqAllocNonPair, hcheck, Bool.true_eq_false, if_false, nonPairSq, hsq,
    Bool.false_eq_true, trsHwSqcqAllocSqChan, hlim, allocChan_some hgets, nonPairCq, hcq,
    trsHwSqcqAllocCqChan, allocChan_some hcqGets] at halloc
  cases hnotice : call.ans.notice with
  | ok _ =>
      refine ⟨fun _ => .inl rfl, fun _ => allOrNothing_of_ok ?_⟩
      rw [halloc, hnotice]
  | error e =>
      simp only [hnotice, freeNew, HalSqCqInputInfo.reuseSq, HalSqCqInputInfo.reuseCq, hnew,
        hnew', Bool.false_eq_true, if_false] at halloc
      have hsqHeld : Held s call _ _ :=
        Held.start.withChan id chan (fun h => h) hfree hfree
      have hheld : Held s call _ _ :=
        (hsqHeld.withChan cqChanId cqChan
          (fun h => (Set.mem_insert_iff.mp h).elim hty fun h => h) hcqFree
          (by rw [isFree_withChan hty hfree, hcqFree])).setCqid hcreated cqChan.cqid
      obtain ⟨hfreed, hchans, hctx⟩ :=
        hheld.freeSqChan (Set.mem_insert_of_mem _ (Set.mem_insert ..)) hcreated
      obtain ⟨hdone, hchansCq⟩ := hfreed.freeCqChan ⟨Set.mem_insert .., hty⟩ hcreatedCq
      rw [allOrNothing_of_error halloc, hdone.kept_iff (by ext; simp; tauto), hchansCq, hchans,
        hctx, sqCtx_setCqid]
      exact (destroy_create_two_iff hnone hcqNone hne).trans
        ⟨.inr, fun h => h.resolve_left fun h => by cases h⟩

theorem allOrNothing_nonPair_iff (htype : call.type = .DRV_NORMAL_TYPE)
    (hstream : s.trsProcHasRes call.proc (trsStream, call.para.info) = true)
    (hstars : s.stars = false) : AllOrNothing s call ↔ Sound s call := by
  have halloc : trsSqcqAlloc s call =
      s.trsHwSqcqAllocNonPair call.proc call.ans call.para := by
    rw [trsSqcqAlloc, htype]
    simp only [trsHwSqcqAlloc, hstream, hstars, Bool.true_eq_false, Bool.false_eq_true, if_false]
  have hsound : Sound s call ↔
      s.nonPairModeAllocParaCheck call.proc call.para = false ∨
      if call.para.reuseSq then
        call.ans.notice = .ok () ∨ (s.sqCtx call.para.sqId).cqid = call.para.cqId
      else
        s.trsIsProcResLimited call.proc trsHwSq = true ∨
        ∀ id chan, s.gets trsHwSq ChanInfo.sqid call.ans.chan = some (id, chan) →
          SqSound s call id chan := by
    rw [Sound, htype]
    simp only [hstars, hstream, Bool.false_eq_true, Bool.true_eq_false, false_or]
  rw [hsound]
  cases hcheck : s.nonPairModeAllocParaCheck call.proc call.para with
  | false =>
      rw [trsHwSqcqAllocNonPair, if_pos hcheck] at halloc
      exact ⟨fun _ => .inl rfl, fun _ => allOrNothing_of_refused halloc⟩
  | true =>
      rw [or_iff_right (by decide)]
      cases hsq : call.para.reuseSq with
      | true => exact allOrNothing_reuse_iff htype halloc hcheck hsq
      | false =>
          rw [if_neg (by decide)]
          cases hlim : s.trsIsProcResLimited call.proc trsHwSq with
          | true =>
              simp only [trsHwSqcqAllocNonPair, hcheck, Bool.true_eq_false, if_false, nonPairSq,
                hsq, Bool.false_eq_true, trsHwSqcqAllocSqChan, hlim, if_true] at halloc
              exact ⟨fun _ => .inl rfl, fun _ => allOrNothing_of_refused halloc⟩
          | false =>
              rw [or_iff_right (by decide)]
              cases hgets : s.gets trsHwSq ChanInfo.sqid call.ans.chan with
              | none =>
                  obtain ⟨e, he⟩ := allocChan_none call.proc hgets
                  simp only [trsHwSqcqAllocNonPair, hcheck, Bool.true_eq_false, if_false,
                    nonPairSq, hsq, Bool.false_eq_true, trsHwSqcqAllocSqChan, hlim, he] at halloc
                  exact ⟨fun _ _ _ h => (by cases h), fun _ => allOrNothing_of_refused halloc⟩
              | some c =>
                  obtain ⟨id, chan⟩ := c
                  have hone : (∀ id' chan', some (id, chan) = some (id', chan') →
                      SqSound s call id' chan') ↔ SqSound s call id chan :=
                    ⟨fun h => h id chan rfl, fun h id' chan' heq => by cases heq; exact h⟩
                  rw [hone, SqSound]
                  cases hcq : call.para.reuseCq with
                  | true => exact allOrNothing_sq_iff htype halloc hcheck hsq hcq hlim hgets
                  | false =>
                      rw [if_neg (by decide)]
                      cases hcqGets : (s.addChan id chan).gets trsHwCq ChanInfo.cqid
                          call.ans.cqChan with
                      | none =>
                          exact allOrNothing_noCq_iff htype halloc hcheck hsq hcq hlim hgets hcqGets
                      | some c =>
                          exact allOrNothing_both_iff htype hstars halloc hcheck hsq hcq hlim hgets
                            hcqGets

end NonPair

/-- Whether a failed allocation changes nothing depends on what the contexts of the
new queues name. -/
theorem sqcqAlloc_allOrNothing_iff (s : QueueInst) (call : AllocCall) :
    AllOrNothing s call ↔ Sound s call := by
  cases htype : call.type with
  | DRV_CTRL_TYPE => exact allOrNothing_sw_iff htype
  | DRV_NORMAL_TYPE =>
      cases hstream : s.trsProcHasRes call.proc (trsStream, call.para.info) with
      | false =>
          have halloc : trsSqcqAlloc s call = (.error .EINVAL, call.para, s) := by
            rw [trsSqcqAlloc, htype]
            simp only [trsHwSqcqAlloc, hstream, if_true]
          refine ⟨fun _ => ?_, fun _ => allOrNothing_of_refused halloc⟩
          rw [Sound, htype]
          exact .inr (.inl hstream)
      | true =>
          cases hstars : s.stars with
          | false => exact allOrNothing_nonPair_iff htype hstream hstars
          | true =>
              refine ⟨fun _ => ?_, fun _ => allOrNothing_pair htype hstream hstars⟩
              rw [Sound, htype]
              exact .inl hstars

/-- An instance without a queue; its contexts are cleared memory. -/
def noQueues : QueueInst where
  stars := false
  res := resInit fun _ => 8
  idNum := fun _ => 8
  surportProcNum := 0
  chans := fun _ => none
  sqCtx := fun _ => ⟨0, 0, 0, 0, 0, 0, 0, 0, 0, 0, 0⟩
  cqCtx := fun _ => ⟨0, 0⟩
  swSqCtx := fun _ => ⟨0, 0, 0, 0, 0, 0, 0, 0, 0, 0, 0⟩
  swCqCtx := fun _ => ⟨0, 0⟩
  cqeVerion := fun _ => 0
  streamCtx := fun _ => ⟨0, 0, 0⟩

/-- Process 1 owns stream 0. -/
def oneStream : QueueInst :=
  { noQueues with res := Trs.trsProcAddRes noQueues.res ⟨1, 1⟩ (trsStream, 0) }

/-- Process 1 asks for a queue of its own on stream 0. -/
def newQueue (ans : Answers) : AllocCall where
  proc := ⟨1, 1⟩
  type := .DRV_NORMAL_TYPE
  para := { type := 0, flag := 0, sqId := 0, cqId := 0, sqeSize := 64, sqeDepth := 1024, info := 0 }
  ans := ans

/-- The first queue has the channels 0 and 1. -/
def firstCall : AllocCall :=
  newQueue ⟨.ok (0, ⟨0, 0, 4096, 0⟩), .ok (1, ⟨0, 0, 0, 8192⟩), .ok (), .ok ()⟩

def oneQueue : QueueInst := (trsSqcqAlloc oneStream firstCall).2.2

/-- For the second queue there is the SQ channel 2 and no CQ channel. -/
def failingCall : AllocCall :=
  newQueue ⟨.ok (2, ⟨1, 0, 12288, 0⟩), .error .ENOMEM, .ok (), .ok ()⟩

/-- The failed allocation destroys the SQ channel of the first queue and leaves its
own: the context of SQ 1 was never initialised. -/
theorem failedAlloc_destroys :
    (trsSqcqAlloc oneStream firstCall).1 = .ok () ∧
      (trsSqcqAlloc oneQueue failingCall).1 = .error .ENOMEM ∧
      (oneQueue.chans 0).isSome = true ∧
      ((trsSqcqAlloc oneQueue failingCall).2.2.chans 0).isSome = false ∧
      (oneQueue.chans 2).isSome = false ∧
      ((trsSqcqAlloc oneQueue failingCall).2.2.chans 2).isSome = true ∧
      ¬ AllOrNothing oneQueue failingCall := by
  have hbefore : (oneQueue.chans 0).isSome = true := by decide
  have hafter : ((trsSqcqAlloc oneQueue failingCall).2.2.chans 0).isSome = false := by decide
  refine ⟨rfl, rfl, hbefore, hafter, by decide, by decide, fun h => ?_⟩
  have hchans := congrFun (h .ENOMEM rfl).chans 0
  rw [hchans, hbefore] at hafter
  cases hafter

end OpiaiKernel.Trs.SqcqAlloc
