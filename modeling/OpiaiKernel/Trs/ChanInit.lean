import OpiaiKernel.Lib.Keyed
import OpiaiKernel.Lib.Machine
import Mathlib.Data.Int.Notation
import Mathlib.Logic.Function.Basic
import Mathlib.Tactic.SplitIfs
import Mathlib.Algebra.Ring.Nat

/-!
# The channels of an instance and the maps of the hardware queues

An instance maps the ids of the hardware queues to the ids of the channels that
own them.  A channel enters its queues when it is created, and a creation that
fails later takes the channel apart again.

The functions are translated from `chan_init.c`, `chan_ts_inst.c` and, for the
interrupt, `chan_rxtx.c`.  Calls
follow one another, and nobody else holds a channel that is destroyed.  The ids
and the memory that a creation is given come with the call.
-/

namespace OpiaiKernel.Trs

inductive TrsHwType
  | stars
  | tscpu
  deriving DecidableEq

inductive ChanType
  | hw
  | sw
  | maint
  | taskSched
  deriving DecidableEq

inductive ChanHwSubType
  | rts
  | topicSched
  | dvpp
  | ts
  | rsvTs
  deriving DecidableEq

inductive TrsIdType
  | hwSqId
  | hwCqId
  | rsvHwSqId
  | rsvHwCqId
  | maintSqId
  | maintCqId
  | swSqId
  | swCqId
  | taskSchedCqId
  deriving DecidableEq

/-- `struct trs_chan_type`; the subtype counts for a hardware channel. -/
structure TrsChanType where
  type : ChanType
  subType : ChanHwSubType
  deriving DecidableEq

/-- `struct trs_chan`. -/
structure TrsChan where
  id : ℕ
  types : TrsChanType
  hasSq : Bool
  sqid : ℕ
  hasCq : Bool
  cqid : ℕ
  deriving DecidableEq

/-- `struct trs_chan_ts_inst`, with the channels that exist. -/
structure TrsChanTsInst where
  hwType : TrsHwType
  sqMaxId : ℕ
  cqMaxId : ℕ
  hwSqCtx : ℕ → ℤ
  hwCqCtx : ℕ → ℤ
  chans : List TrsChan

/-- `struct trs_chan_para`. -/
structure TrsChanPara where
  types : TrsChanType
  allocSq : Bool
  allocCq : Bool
  noAllocSqcqMem : Bool
  noticeTs : Bool

/-- What a creation is given: its memory, its ids, the memory of its queues and
the answer of the device. -/
structure TrsChanEnv where
  mem : Bool
  id : Option ℕ
  sqid : Option ℕ
  sqMem : Bool
  cqid : Option ℕ
  cqMem : Bool
  notice : Bool

def trsChanSqToChanId (s : TrsChanTsInst) (sqid : ℕ) : ℤ :=
  if sqid < s.sqMaxId then s.hwSqCtx sqid else -1

def trsChanCqToChanId (s : TrsChanTsInst) (cqid : ℕ) : ℤ :=
  if cqid < s.cqMaxId then s.hwCqCtx cqid else -1

def u32Max : ℕ := 2 ^ 32 - 1

/-- The channels that an interrupt is dispatched on, with the queue ids. -/
def trsChanIrqProcCqs (s : TrsChanTsInst) (cqids : List ℕ) : List (ℕ × TrsChan) :=
  cqids.filterMap fun cqid =>
    if cqid = u32Max then none
    else
      match trsChanCqToChanId s cqid with
      | .ofNat chanId => (Keyed.get TrsChan.id chanId s.chans).map fun chan => (cqid, chan)
      | .negSucc _ => none

def trsChanGetSqType (hwType : TrsHwType) (types : TrsChanType) : TrsIdType :=
  match types.type with
  | .hw =>
      match types.subType with
      | .rts | .dvpp | .ts => .hwSqId
      | _ => .rsvHwSqId
  | .maint => .maintSqId
  | _ => if hwType = .stars then .swSqId else .hwSqId

def trsChanGetCqType (hwType : TrsHwType) (types : TrsChanType) : TrsIdType :=
  match types.type with
  | .hw =>
      match types.subType with
      | .rts | .dvpp | .ts => .hwCqId
      | _ => .rsvHwCqId
  | .maint => .maintCqId
  | .taskSched => .taskSchedCqId
  | .sw => if hwType = .stars then .swCqId else .hwCqId

/-- The ids that number the hardware queues; the reserved ones are taken from
the same numbers. -/
def TrsIdType.isHw : TrsIdType → Bool
  | .hwSqId | .hwCqId | .rsvHwSqId | .rsvHwCqId => true
  | _ => false

/-- The channel owns the hardware queue. -/
def TrsChan.ownsSq (hwType : TrsHwType) (chan : TrsChan) (sqid : ℕ) : Bool :=
  chan.hasSq && (trsChanGetSqType hwType chan.types).isHw && chan.sqid = sqid

def TrsChan.ownsCq (hwType : TrsHwType) (chan : TrsChan) (cqid : ℕ) : Bool :=
  chan.hasCq && (trsChanGetCqType hwType chan.types).isHw && chan.cqid = cqid

def trsChanSqInit (s : TrsChanTsInst) (chan : TrsChan) (para : TrsChanPara) (env : TrsChanEnv) :
    TrsChanTsInst × TrsChan × Bool :=
  match env.sqid with
  | none => (s, chan, false)
  | some sqid =>
      let chan := { chan with sqid := sqid }
      if !para.noAllocSqcqMem && !env.sqMem then (s, chan, false)
      else if chan.types.type = .hw then
        ({ s with hwSqCtx := Function.update s.hwSqCtx chan.sqid chan.id }, chan, true)
      else (s, chan, true)

def trsChanSqUninit (s : TrsChanTsInst) (chan : TrsChan) : TrsChanTsInst :=
  if chan.types.type = .hw then
    { s with hwSqCtx := Function.update s.hwSqCtx chan.sqid (-1) }
  else s

def trsChanCqInit (s : TrsChanTsInst) (chan : TrsChan) (para : TrsChanPara) (env : TrsChanEnv) :
    TrsChanTsInst × TrsChan × Bool :=
  match env.cqid with
  | none => (s, chan, false)
  | some cqid =>
      let chan := { chan with cqid := cqid }
      if chan.types.type = .hw ∧ s.cqMaxId ≤ chan.cqid then (s, chan, false)
      else if !para.noAllocSqcqMem && !env.cqMem then (s, chan, false)
      else if chan.types.type = .hw then
        ({ s with hwCqCtx := Function.update s.hwCqCtx chan.cqid chan.id }, chan, true)
      else (s, chan, true)

/-- It gives the memory and the id of the queue back, and leaves the map. -/
def trsChanCqUninit (s : TrsChanTsInst) (_ : TrsChan) : TrsChanTsInst := s

def trsChanInstUninit (s : TrsChanTsInst) (chan : TrsChan) : TrsChanTsInst :=
  let s := if chan.hasSq then trsChanSqUninit s chan else s
  if chan.hasCq then trsChanCqUninit s chan else s

/-- The part of `trs_chan_inst_init` up to the submission queue. -/
def trsChanInstInitSq (s : TrsChanTsInst) (chan : TrsChan) (para : TrsChanPara)
    (env : TrsChanEnv) : TrsChanTsInst × TrsChan × Bool :=
  if !para.allocSq then (s, chan, true)
  else
    match trsChanSqInit s chan para env with
    | (s, chan, false) => (s, chan, false)
    | (s, chan, true) => (s, { chan with hasSq := true }, true)

/-- The part that follows, up to the completion queue. -/
def trsChanInstInitCq (s : TrsChanTsInst) (chan : TrsChan) (para : TrsChanPara)
    (env : TrsChanEnv) : TrsChanTsInst × TrsChan × Bool :=
  if !para.allocCq then (s, chan, true)
  else
    match trsChanCqInit s chan para env with
    | (s, chan, false) => (trsChanInstUninit s chan, chan, false)
    | (s, chan, true) => (s, { chan with hasCq := true }, true)

def trsChanInstInit (s : TrsChanTsInst) (chan : TrsChan) (para : TrsChanPara)
    (env : TrsChanEnv) : TrsChanTsInst × TrsChan × Bool :=
  match trsChanInstInitSq s chan para env with
  | (s, chan, false) => (s, chan, false)
  | (s, chan, true) =>
      match trsChanInstInitCq s chan para env with
      | (s, chan, false) => (s, chan, false)
      | (s, chan, true) =>
          if para.noticeTs && !env.notice then (trsChanInstUninit s chan, chan, false)
          else (s, chan, true)

def trsChanInstCreate (s : TrsChanTsInst) (para : TrsChanPara) (env : TrsChanEnv) :
    TrsChanTsInst :=
  if !env.mem then s
  else
    match env.id with
    | none => s
    | some id =>
        let chan : TrsChan :=
          { id := id, types := para.types, hasSq := false, sqid := 0, hasCq := false, cqid := 0 }
        match trsChanInstInit s chan para env with
        | (s, _, false) => s
        | (s, chan, true) => { s with chans := chan :: s.chans }

/-- The last reference goes with the destruction. -/
def halKernelTrsChanDestroy (s : TrsChanTsInst) (chanId : ℕ) : TrsChanTsInst :=
  match Keyed.get TrsChan.id chanId s.chans with
  | none => s
  | some chan =>
      trsChanInstUninit { s with chans := Keyed.remove TrsChan.id chanId s.chans } chan

inductive ChanOp
  | create (para : TrsChanPara) (env : TrsChanEnv)
  | destroy (chanId : ℕ)

/-- The ids that a creation is given are not in use. -/
def TrsChanEnv.fresh (s : TrsChanTsInst) (para : TrsChanPara) (env : TrsChanEnv) : Bool :=
  s.chans.all fun chan => env.id ≠ some chan.id &&
    (!(trsChanGetSqType s.hwType para.types).isHw ||
      env.sqid.all fun sqid => !chan.ownsSq s.hwType sqid) &&
    (!(trsChanGetCqType s.hwType para.types).isHw ||
      env.cqid.all fun cqid => !chan.ownsCq s.hwType cqid)

def chanStep (s : TrsChanTsInst) : ChanOp → Option TrsChanTsInst
  | .create para env => if env.fresh s para then some (trsChanInstCreate s para env) else none
  | .destroy chanId => some (halKernelTrsChanDestroy s chanId)

/-- `trs_chan_ts_inst_create`; the contexts of the completion queues are only
zeroed. -/
def chanTsInstInit (hwType : TrsHwType) (sqMaxId cqMaxId : ℕ) : TrsChanTsInst where
  hwType := hwType
  sqMaxId := sqMaxId
  cqMaxId := cqMaxId
  hwSqCtx := fun _ => -1
  hwCqCtx := fun _ => 0
  chans := []

def chanMachine : Machine TrsChanTsInst ChanOp where
  init s := ∃ hwType sqMaxId cqMaxId, s = chanTsInstInit hwType sqMaxId cqMaxId
  step := chanStep

end OpiaiKernel.Trs
