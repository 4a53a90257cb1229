import Mathlib.Data.Int.Notation
import Mathlib.Logic.Function.Basic
import OpiaiKernel.Lib.Machine
import OpiaiKernel.Lib.Keyed

/-!
# Counting the profiling channels

A started channel occupies a slot of its channel information and a sub-channel of
the device, and is counted there and in the poll information of its context.  The
stop of a whole device gives slots back by a route of its own.

The functions are translated from `prof_drv_dev.c`, `prof_peripheral.c` and
`prof_ts.c`, one call after the other; what fails on the way and how long a stop
waits are parts of a step.  Which free sub-channel a start obtains differs between
the chips and is part of the step too.
-/

namespace OpiaiKernel.Prof.Channels

inductive ProfChannelState
  | idle
  | disable
  | starting
  | enable
  | stopping
  | stopWaitTs
  | flush
  deriving DecidableEq

inductive ProfChannelType
  | ts
  | peripheral
  deriving DecidableEq

inductive ProfRet
  | ok
  | error
  | busy
  | startedAlready
  | stoppedAlready
  | notEnoughSubChannelResource
  | vfSubResourceFull
  deriving DecidableEq

/-- The constants and the table of channels of a chip. -/
structure Chip where
  vfidNumMax : ℕ
  subChannelNumMax : ℕ
  channelType : ℕ → Option ProfChannelType

structure ChannelKey where
  deviceId : ℕ
  vfid : ℕ
  channelId : ℕ
  deriving DecidableEq

structure SubKey where
  deviceId : ℕ
  channelId : ℕ
  subChannelId : ℕ
  deriving DecidableEq

def ChannelKey.sub (k : ChannelKey) (i : ℕ) : SubKey := ⟨k.deviceId, k.channelId, i⟩

/-- `struct prof_channel_info`; a slot that is not `NULL` points to the sub-channel
of the same number. -/
structure ChannelInfo where
  channelUsedCount : ℕ
  channelUsedNumMax : ℕ
  subChannelInfo : ℕ → Bool

structure SubChannelInfo where
  procCtx : Option ℕ
  vfid : ℕ
  channelState : ProfChannelState

/-- The channels of all devices and the `fd_num` of each context, with the channels
that were started and not stopped since. -/
structure ProfState where
  deviceUsed : ℕ → Bool
  channelInfo : ChannelKey → ChannelInfo
  subResource : SubKey → SubChannelInfo
  fdNum : ℕ → ℤ
  running : List (ChannelKey × ℕ)

namespace ProfState

def setSub (s : ProfState) (r : SubKey) (c : SubChannelInfo) : ProfState :=
  { s with subResource := Function.update s.subResource r c }

def setState (s : ProfState) (r : SubKey) (state : ProfChannelState) : ProfState :=
  s.setSub r { s.subResource r with channelState := state }

/-- The channel that a sub-channel serves. -/
def keyOf (s : ProfState) (r : SubKey) : ChannelKey :=
  ⟨r.deviceId, (s.subResource r).vfid, r.channelId⟩

/-- A channel of a context is counted. -/
def count (s : ProfState) (k : ChannelKey) (ctx : ℕ) : ProfState :=
  { s with
    fdNum := Function.update s.fdNum ctx (s.fdNum ctx + 1)
    running := (k, ctx) :: s.running }

end ProfState

/-! ## Slots -/

variable (chip : Chip)

/-- The slot in which a context has its sub-channel. -/
def profGetSubChannelInfoFromCtx (s : ProfState) (ctx : ℕ) (k : ChannelKey) : Option ℕ :=
  (List.range chip.subChannelNumMax).find? fun i =>
    (s.channelInfo k).subChannelInfo i && decide ((s.subResource (k.sub i)).procCtx = some ctx)

/-- A sub-channel is available when it has no context; `none` is a start that the
chip refuses. -/
def profGetAvailableSubChannel (s : ProfState) (k : ChannelKey) (sub : Option ℕ) : Option ℕ :=
  sub.filter fun i =>
    decide (i < chip.subChannelNumMax) && decide ((s.subResource (k.sub i)).procCtx = none)

def profAddToSubResourceInfo (s : ProfState) (ctx : ℕ) (k : ChannelKey) (i : ℕ) : ProfState :=
  let info := s.channelInfo k
  { s.setSub (k.sub i) ⟨some ctx, k.vfid, .disable⟩ with
    channelInfo :=
      Function.update s.channelInfo k
        { info with
          subChannelInfo := Function.update info.subChannelInfo i true
          channelUsedCount := info.channelUsedCount + 1 } }

def profAllocSubChannelId (s : ProfState) (ctx : ℕ) (k : ChannelKey) (sub : Option ℕ) :
    Except ProfRet (ℕ × ProfState) :=
  if (profGetSubChannelInfoFromCtx chip s ctx k).isSome then .error .startedAlready
  else
    match profGetAvailableSubChannel chip s k sub with
    | none => .error .notEnoughSubChannelResource
    | some i =>
        let info := s.channelInfo k
        if info.channelUsedCount ≥ info.channelUsedNumMax then .error .vfSubResourceFull
        else .ok (i, profAddToSubResourceInfo s ctx k i)

def profFreeSubChannel (s : ProfState) (r : SubKey) : ProfState :=
  s.setSub r ⟨none, chip.vfidNumMax, .idle⟩

/-- The channel of the slot is not running any more. -/
def profFreeSubChannelResource (s : ProfState) (r : SubKey) : ProfState :=
  let k := s.keyOf r
  let info := s.channelInfo k
  if info.subChannelInfo r.subChannelId then
    profFreeSubChannel chip
      { s with
        channelInfo :=
          Function.update s.channelInfo k
            { info with
              subChannelInfo := Function.update info.subChannelInfo r.subChannelId false
              channelUsedCount := info.channelUsedCount - 1 }
        running := Keyed.remove Prod.fst k s.running } r
  else s

def profChannelInfoFree (s : ProfState) (r : SubKey) : ProfState :=
  let s := { s with
    fdNum :=
      match (s.subResource r).procCtx with
      | some ctx => Function.update s.fdNum ctx (s.fdNum ctx - 1)
      | none => s.fdNum }
  s.setState r .disable

/-! ## Starts -/

/-- How far the start of a peripheral channel comes. -/
inductive AgentStart
  | paraInvalid
  | initFailed
  | processFailed
  | started

def profAgentStart (s : ProfState) (ctx : ℕ) (k : ChannelKey) (sub : Option ℕ) (how : AgentStart) :
    ProfRet × ProfState :=
  if s.deviceUsed k.deviceId = false then (.error, s)
  else
    match how with
    | .paraInvalid => (.error, s)
    | _ =>
        match profAllocSubChannelId chip s ctx k sub with
        | .error ret => (ret, s)
        | .ok (i, s) =>
            match how with
            | .started => (.ok, (s.setState (k.sub i) .enable).count k ctx)
            | _ => (.error, profFreeSubChannelResource chip s (k.sub i))

/-- How far the start of a TS channel comes. -/
inductive TscpuStart
  | paraInvalid
  | initFailed
  | messagesFailed
  | sendFailed
  | ackError
  | started

def profTscpuStart (s : ProfState) (ctx : ℕ) (k : ChannelKey) (sub : Option ℕ) (how : TscpuStart) :
    ProfRet × ProfState :=
  if s.deviceUsed k.deviceId = false then (.error, s)
  else
    match how with
    | .paraInvalid => (.error, s)
    | _ =>
        match profAllocSubChannelId chip s ctx k sub with
        | .error .startedAlready => (.ok, s)
        | .error _ => (.error, s)
        | .ok (i, s) =>
            match how with
            | .initFailed => (.error, profFreeSubChannelResource chip s (k.sub i))
            | .ackError =>
                -- the response of the TS brings the channel to `starting` first
                let s := s.setState (k.sub i) .starting
                (.error, profFreeSubChannelResource chip (s.setState (k.sub i) .disable) (k.sub i))
            | .started =>
                let s := s.setState (k.sub i) .starting
                (.ok, (s.setState (k.sub i) .enable).count k ctx)
            | _ =>
                (.error, profFreeSubChannelResource chip (s.setState (k.sub i) .disable) (k.sub i))

/-! ## Stops -/

def profStopChannelStatusCheck (s : ProfState) (r : SubKey) (ctx : ℕ) : ProfRet :=
  match (s.subResource r).channelState with
  | .disable => .stoppedAlready
  | .idle => .stoppedAlready
  | .starting => .stoppedAlready
  | .stopping => .busy
  | .stopWaitTs => .busy
  | .flush => .error
  | .enable => if (s.subResource r).procCtx ≠ some ctx then .error else .ok

/-- What a stop finds when it waits for the last data. -/
inductive ReadOver
  | noData
  | readOver
  | timedOut

def profStopWaitBuffReadOver (s : ProfState) (r : SubKey) (ctx : ℕ) : ReadOver → ProfRet × ProfState
  | .noData => (.ok, s)
  | .readOver =>
      let s := (s.setState r .stopping).setState r .enable
      (profStopChannelStatusCheck s r ctx, s)
  | .timedOut => (.ok, (s.setState r .stopping).setState r .enable)

/-- The end of a stop: counted back, and its slot is given back. -/
def profStopEnd (s : ProfState) (r : SubKey) : ProfState :=
  profFreeSubChannelResource chip (profChannelInfoFree s r) r

/-- The part of a stop that the types share: the channel is found and checked. -/
def profStopWith (s : ProfState) (ctx : ℕ) (k : ChannelKey)
    (stop : SubKey → ProfRet × ProfState) : ProfRet × ProfState :=
  if s.deviceUsed k.deviceId = false then (.error, s)
  else
    match profGetSubChannelInfoFromCtx chip s ctx k with
    | none => (.stoppedAlready, s)
    | some i =>
        match profStopChannelStatusCheck s (k.sub i) ctx with
        | .ok => stop (k.sub i)
        | ret => (ret, s)

/-- What a stop waits for: whether the sampling thread still runs, whether the TS
answers, and the last data. -/
structure StopWait where
  sampling : Bool
  sent : Bool
  acked : Bool
  lastData : ReadOver

def profAgentStop (s : ProfState) (ctx : ℕ) (k : ChannelKey) (w : StopWait) : ProfRet × ProfState :=
  profStopWith chip s ctx k fun r =>
    if w.sampling then
      match profStopWaitBuffReadOver (s.setState r .stopping) r ctx w.lastData with
      | (.ok, s) => (.ok, profStopEnd chip s r)
      | (_, s) => (.stoppedAlready, s)
    else (.ok, profStopEnd chip s r)

def profTscpuStop (s : ProfState) (ctx : ℕ) (k : ChannelKey) (w : StopWait) : ProfRet × ProfState :=
  profStopWith chip s ctx k fun r =>
    let s := s.setState r .stopWaitTs
    if w.sent = false then (.error, profStopEnd chip s r)
    else
      let s := s.setState r .enable
      if w.acked = false then (.error, profStopEnd chip s r)
      else
        match profStopWaitBuffReadOver s r ctx w.lastData with
        | (.ok, s) => (.ok, profStopEnd chip s r)
        | (_, s) => (.stoppedAlready, s)

def profDrvStop (s : ProfState) (ctx : ℕ) (k : ChannelKey) (w : StopWait) : ProfRet × ProfState :=
  match chip.channelType k.channelId with
  | some .peripheral => profAgentStop chip s ctx k w
  | some .ts => profTscpuStop chip s ctx k w
  | none => (.error, s)

/-- The release of a context stops its channels one after the other. -/
def profDrvRelease (s : ProfState) (ctx : ℕ) (wait : ChannelKey → StopWait) :
    List ChannelKey → ProfState
  | [] => s
  | k :: keys =>
      match profGetSubChannelInfoFromCtx chip s ctx k with
      | none => profDrvRelease s ctx wait keys
      | some _ => profDrvRelease (profDrvStop chip s ctx k (wait k)).2 ctx wait keys

def profHdcSessionChannelFree (s : ProfState) (ctx : ℕ) (k : ChannelKey) : ProfState :=
  match profGetSubChannelInfoFromCtx chip s ctx k with
  | none => s
  | some i =>
      if (s.subResource (k.sub i)).channelState = .disable then
        profFreeSubChannelResource chip s (k.sub i)
      else profStopEnd chip s (k.sub i)

/-- The stop of a sub-channel with its device; `fd_num` is left as it is. -/
def profSubChannelStop (s : ProfState) (k : ChannelKey) (i : ℕ) : ProfState :=
  let r := k.sub i
  if (s.channelInfo k).subChannelInfo i = false then s
  else if (s.subResource r).channelState = .disable ∨ (s.subResource r).channelState = .idle then s
  else profFreeSubChannelResource chip (s.setState r .disable) r

def profAgentSubChannelStop (s : ProfState) (k : ChannelKey) (i : ℕ) : ProfState :=
  if chip.channelType k.channelId ≠ some .peripheral then s else profSubChannelStop chip s k i

def profTscpuSubChannelStop (s : ProfState) (k : ChannelKey) (i : ℕ) : ProfState :=
  profSubChannelStop chip s k i

/-- Whether a poll reports that everything is stopped. -/
def profPollStopped (s : ProfState) (ctx : ℕ) : Prop := s.fdNum ctx ≤ 0

inductive ChannelStep
  | agentStart (ctx : ℕ) (k : ChannelKey) (sub : Option ℕ) (how : AgentStart)
  | tscpuStart (ctx : ℕ) (k : ChannelKey) (sub : Option ℕ) (how : TscpuStart)
  | stop (ctx : ℕ) (k : ChannelKey) (w : StopWait)
  | release (ctx : ℕ) (wait : ChannelKey → StopWait) (keys : List ChannelKey)
  | sessionFree (ctx : ℕ) (k : ChannelKey)
  | deviceUnused (deviceId : ℕ)
  | agentSubChannelStop (k : ChannelKey) (i : ℕ)
  | tscpuSubChannelStop (k : ChannelKey) (i : ℕ)

def channelStep (s : ProfState) : ChannelStep → Option ProfState
  | .agentStart ctx k sub how => some (profAgentStart chip s ctx k sub how).2
  | .tscpuStart ctx k sub how => some (profTscpuStart chip s ctx k sub how).2
  | .stop ctx k w => some (profDrvStop chip s ctx k w).2
  | .release ctx wait keys => some (profDrvRelease chip s ctx wait keys)
  | .sessionFree ctx k => some (profHdcSessionChannelFree chip s ctx k)
  | .deviceUnused deviceId =>
      some { s with deviceUsed := Function.update s.deviceUsed deviceId false }
  | .agentSubChannelStop k i => some (profAgentSubChannelStop chip s k i)
  | .tscpuSubChannelStop k i => some (profTscpuSubChannelStop chip s k i)

def ChannelInfo.vacant : ChannelInfo := ⟨0, 1, fun _ => false⟩

def ProfState.start : ProfState where
  deviceUsed := fun _ => true
  channelInfo := fun _ => .vacant
  subResource := fun _ => ⟨none, 0, .idle⟩
  fdNum := fun _ => 0
  running := []

def channelMachine : Machine ProfState ChannelStep where
  init s := s = ProfState.start
  step := channelStep chip

/-- The stop of a device meets no channel that is started. -/
def ChannelOk (s : ProfState) : ChannelStep → Prop
  | .agentSubChannelStop k i => (s.channelInfo k).subChannelInfo i = false
  | .tscpuSubChannelStop k i => (s.channelInfo k).subChannelInfo i = false
  | _ => True

instance : ∀ s a, Decidable (ChannelOk s a)
  | s, .agentSubChannelStop k i =>
      inferInstanceAs (Decidable ((s.channelInfo k).subChannelInfo i = false))
  | s, .tscpuSubChannelStop k i =>
      inferInstanceAs (Decidable ((s.channelInfo k).subChannelInfo i = false))
  | _, .agentStart _ _ _ _ => isTrue trivial
  | _, .tscpuStart _ _ _ _ => isTrue trivial
  | _, .stop _ _ _ => isTrue trivial
  | _, .release _ _ _ => isTrue trivial
  | _, .sessionFree _ _ => isTrue trivial
  | _, .deviceUnused _ => isTrue trivial

/-! ## The slots of a channel -/

def ChannelInfo.occupied (i : ℕ) : ChannelInfo := ⟨1, 1, Function.update (fun _ => false) i true⟩

variable {chip : Chip} {s t : ProfState} {k : ChannelKey} {r : SubKey} {i ctx : ℕ}

theorem setSub_self {c : SubChannelInfo} : (s.setSub r c).subResource r = c :=
  Function.update_self _ _ _

theorem setSub_of_ne {q : SubKey} {c : SubChannelInfo} (h : q ≠ r) :
    (s.setSub r c).subResource q = s.subResource q :=
  Function.update_of_ne h _ _

structure Vacant (s : ProfState) (k : ChannelKey) : Prop where
  info : s.channelInfo k = .vacant
  running : ∀ ctx, (k, ctx) ∉ s.running

structure Occupied (chip : Chip) (s : ProfState) (k : ChannelKey) (i ctx : ℕ) : Prop where
  lt : i < chip.subChannelNumMax
  info : s.channelInfo k = .occupied i
  sub : s.subResource (k.sub i) = ⟨some ctx, k.vfid, .enable⟩
  running : (k, ctx) ∈ s.running

/-- A channel has no slot, or one for the context that runs it; a sub-channel with
a context is in the slot of its channel. -/
structure ChannelInv (chip : Chip) (s : ProfState) : Prop where
  cases : ∀ k, Vacant s k ∨ ∃ i ctx, Occupied chip s k i ctx
  owner : ∀ r, (s.subResource r).procCtx ≠ none →
    (s.channelInfo (s.keyOf r)).subChannelInfo r.subChannelId = true
  uniq : Keyed.Uniq Prod.fst s.running

/-- Each context counts the channels that it runs. -/
def FdInv (s : ProfState) : Prop :=
  ∀ ctx, s.fdNum ctx = (s.running.countP fun x => x.2 = ctx : ℕ)

theorem occupied_slot {j : ℕ} : (ChannelInfo.occupied i).subChannelInfo j = true ↔ j = i := by
  by_cases hj : j = i <;> simp [ChannelInfo.occupied, hj]

theorem Occupied.unique {j ctx' : ℕ} (h : Occupied chip s k i ctx)
    (h' : Occupied chip s k j ctx') : i = j ∧ ctx = ctx' := by
  obtain rfl : i = j := occupied_slot.mp (h'.info ▸ h.info ▸ occupied_slot.mpr rfl)
  exact ⟨rfl, Option.some.inj (congrArg SubChannelInfo.procCtx (h.sub.symm.trans h'.sub))⟩

/-- What a context finds is its own sub-channel. -/
theorem ChannelInv.found (hinv : ChannelInv chip s)
    (h : profGetSubChannelInfoFromCtx chip s ctx k = some i) : Occupied chip s k i ctx := by
  have hfound := List.find?_some h
  rw [Bool.and_eq_true, decide_eq_true_eq] at hfound
  rcases hinv.cases k with hvacant | ⟨j, ctx', hocc⟩
  · rw [hvacant.info] at hfound
    exact absurd hfound.1 Bool.false_ne_true
  · rw [hocc.info, occupied_slot] at hfound
    obtain ⟨rfl, hctx⟩ := hfound
    rw [hocc.sub] at hctx
    obtain rfl := Option.some.inj hctx
    exact hocc

/-! ## One channel is filled or given back -/

/-- The state of a start that succeeds. -/
def filled (s : ProfState) (ctx : ℕ) (k : ChannelKey) (i : ℕ) : ProfState :=
  ((profAddToSubResourceInfo s ctx k i).setState (k.sub i) .enable).count k ctx

/-- The state after a slot was given back. -/
def vacated (chip : Chip) (s : ProfState) (k : ChannelKey) (i : ℕ) : ProfState :=
  { s.setSub (k.sub i) ⟨none, chip.vfidNumMax, .idle⟩ with
    channelInfo := Function.update s.channelInfo k .vacant
    running := Keyed.remove Prod.fst k s.running }

theorem free_eq (hinfo : s.channelInfo k = .occupied i)
    (hvfid : (s.subResource (k.sub i)).vfid = k.vfid) :
    profFreeSubChannelResource chip s (k.sub i) = vacated chip s k i := by
  have hkey : s.keyOf (k.sub i) = k := by
    rw [ProfState.keyOf, hvfid]
    rfl
  have hslots : Function.update (Function.update (fun _ : ℕ => false) i true) i false =
      fun _ => false := by
    rw [Function.update_idem, Function.update_eq_self_iff]
  unfold profFreeSubChannelResource
  dsimp only
  have hslot : (ChannelInfo.occupied i).subChannelInfo (k.sub i).subChannelId = true :=
    occupied_slot.mpr rfl
  rw [hkey, hinfo, if_pos hslot]
  simp only [ChannelInfo.occupied, ChannelKey.sub, hslots]
  rfl

/-- A start that fails leaves the sub-channel free as it was. -/
theorem free_add (chip : Chip) (ctx i : ℕ) (hvacant : Vacant s k) (state : ProfChannelState) :
    profFreeSubChannelResource chip
        ((profAddToSubResourceInfo s ctx k i).setState (k.sub i) state) (k.sub i) =
      s.setSub (k.sub i) ⟨none, chip.vfidNumMax, .idle⟩ := by
  have hinfo : ((profAddToSubResourceInfo s ctx k i).setState (k.sub i) state).channelInfo k =
      .occupied i := by
    simp [profAddToSubResourceInfo, ProfState.setState, ProfState.setSub, hvacant.info,
      ChannelInfo.vacant, ChannelInfo.occupied]
  have hremove : Keyed.remove Prod.fst k s.running = s.running := by
    apply Keyed.remove_eq_self
    rintro ⟨j, c⟩ hmem rfl
    exact hvacant.running c hmem
  rw [free_eq hinfo (by simp [profAddToSubResourceInfo, ProfState.setState, ProfState.setSub])]
  simp only [vacated, profAddToSubResourceInfo, ProfState.setState, ProfState.setSub,
    Function.update_idem, hremove, ← hvacant.info, Function.update_eq_self]

theorem keyOf_setSub_of_ne {j : ℕ} {c : SubChannelInfo} {r : SubKey} (hr : r ≠ k.sub j) :
    (s.setSub (k.sub j) c).keyOf r = s.keyOf r := by
  rw [ProfState.keyOf, ProfState.keyOf, setSub_of_ne hr]

/-- A sub-channel that no channel uses may be written. -/
theorem ChannelInv.reset (hinv : ChannelInv chip s) {i : ℕ}
    (hfree : (s.subResource (k.sub i)).procCtx = none) {c : SubChannelInfo}
    (hc : c.procCtx = none) : ChannelInv chip (s.setSub (k.sub i) c) := by
  refine ⟨?_, ?_, hinv.uniq⟩
  · intro j
    rcases hinv.cases j with hvacant | ⟨i', ctx, hocc⟩
    · exact .inl ⟨hvacant.info, hvacant.running⟩
    · refine .inr ⟨i', ctx, hocc.lt, hocc.info, ?_, hocc.running⟩
      have hne : j.sub i' ≠ k.sub i := by
        intro heq
        rw [← heq, hocc.sub] at hfree
        cases hfree
      rw [setSub_of_ne hne]
      exact hocc.sub
  · intro r hr
    by_cases hrk : r = k.sub i
    · rw [hrk, setSub_self] at hr
      exact absurd hc hr
    · rw [keyOf_setSub_of_ne hrk]
      rw [setSub_of_ne hrk] at hr
      exact hinv.owner r hr

/-- Different channels in their slots use different sub-channels. -/
theorem ChannelInv.sub_ne (hinv : ChannelInv chip s) {j : ChannelKey} {i' ctx' : ℕ}
    (hk : (s.channelInfo k).subChannelInfo i = true) (hj : Occupied chip s j i' ctx')
    (hne : j ≠ k) : j.sub i' ≠ k.sub i := by
  intro heq
  rcases hinv.cases k with hvacant | ⟨i₀, ctx₀, hocc⟩
  · rw [hvacant.info] at hk
    exact Bool.false_ne_true hk
  · rw [hocc.info, occupied_slot] at hk
    subst hk
    have hsub := hj.sub
    rw [heq, hocc.sub] at hsub
    apply hne
    cases j
    cases k
    simp_all [ChannelKey.sub]

theorem ChannelInv.vacate (hinv : ChannelInv chip s) (hocc : Occupied chip s k i ctx) :
    ChannelInv chip (vacated chip s k i) := by
  have hslot : (s.channelInfo k).subChannelInfo i = true := hocc.info ▸ occupied_slot.mpr rfl
  refine ⟨?_, ?_, hinv.uniq.unlink⟩
  · intro j
    by_cases hjk : j = k
    · subst hjk
      refine .inl ⟨Function.update_self _ _ _, ?_⟩
      intro c hmem
      simp [vacated, Keyed.remove] at hmem
    · have hinfo : (vacated chip s k i).channelInfo j = s.channelInfo j :=
        Function.update_of_ne hjk _ _
      have hrunning : ∀ c, (j, c) ∈ (vacated chip s k i).running ↔ (j, c) ∈ s.running := by
        intro c
        simp [vacated, Keyed.remove, hjk]
      rcases hinv.cases j with hvacant | ⟨i', ctx', hocc'⟩
      · exact .inl ⟨hinfo.trans hvacant.info, fun c => (hrunning c).not.mpr (hvacant.running c)⟩
      · refine .inr ⟨i', ctx', hocc'.lt, hinfo.trans hocc'.info, ?_,
          (hrunning ctx').mpr hocc'.running⟩
        exact (Function.update_of_ne (hinv.sub_ne hslot hocc' hjk) _ _).trans hocc'.sub
  · intro r hr
    by_cases hrk : r = k.sub i
    · have hself : (vacated chip s k i).subResource (k.sub i) = ⟨none, chip.vfidNumMax, .idle⟩ :=
        Function.update_self _ _ _
      rw [hrk, hself] at hr
      exact absurd rfl hr
    · have hsub : (vacated chip s k i).subResource r = s.subResource r :=
        Function.update_of_ne hrk _ _
      have hkey : (vacated chip s k i).keyOf r = s.keyOf r := keyOf_setSub_of_ne hrk
      rw [hsub] at hr
      have howner := hinv.owner r hr
      have hne : s.keyOf r ≠ k := by
        intro heq
        rw [heq, hocc.info, occupied_slot] at howner
        apply hrk
        rw [← heq, ← howner]
        rfl
      have hinfo : (vacated chip s k i).channelInfo (s.keyOf r) = s.channelInfo (s.keyOf r) :=
        Function.update_of_ne hne _ _
      rw [hkey, hinfo]
      exact howner

theorem ChannelInv.fill (hinv : ChannelInv chip s) (hvacant : Vacant s k)
    (hlt : i < chip.subChannelNumMax) (hfree : (s.subResource (k.sub i)).procCtx = none) :
    ChannelInv chip (filled s ctx k i) := by
  have hinfo : (filled s ctx k i).channelInfo =
      Function.update s.channelInfo k (.occupied i) := by
    simp [filled, profAddToSubResourceInfo, ProfState.setState, ProfState.setSub,
      ProfState.count, hvacant.info, ChannelInfo.vacant, ChannelInfo.occupied]
  have hsub : (filled s ctx k i).subResource =
      Function.update s.subResource (k.sub i) ⟨some ctx, k.vfid, .enable⟩ := by
    simp [filled, profAddToSubResourceInfo, ProfState.setState, ProfState.setSub,
      ProfState.count]
  have hrunning : (filled s ctx k i).running = (k, ctx) :: s.running := rfl
  refine ⟨?_, ?_, ?_⟩
  · intro j
    by_cases hjk : j = k
    · subst hjk
      refine .inr ⟨i, ctx, hlt, ?_, ?_, ?_⟩
      · rw [hinfo, Function.update_self]
      · rw [hsub, Function.update_self]
      · rw [hrunning]
        exact List.mem_cons_self
    · have hmem : ∀ c, (j, c) ∈ (filled s ctx k i).running ↔ (j, c) ∈ s.running := by
        intro c
        simp [hrunning, hjk]
      rcases hinv.cases j with hvacant' | ⟨i', ctx', hocc⟩
      · refine .inl ⟨?_, fun c => (hmem c).not.mpr (hvacant'.running c)⟩
        rw [hinfo, Function.update_of_ne hjk]
        exact hvacant'.info
      · have hne : j.sub i' ≠ k.sub i := by
          intro heq
          rw [← heq, hocc.sub] at hfree
          cases hfree
        refine .inr ⟨i', ctx', hocc.lt, ?_, ?_, (hmem ctx').mpr hocc.running⟩
        · rw [hinfo, Function.update_of_ne hjk]
          exact hocc.info
        · rw [hsub, Function.update_of_ne hne]
          exact hocc.sub
  · intro r hr
    by_cases hrk : r = k.sub i
    · have hkey : (filled s ctx k i).keyOf r = k := by
        rw [ProfState.keyOf, hsub, hrk, Function.update_self]
        rfl
      rw [hkey, hinfo, Function.update_self, hrk]
      exact occupied_slot.mpr rfl
    · have hkey : (filled s ctx k i).keyOf r = s.keyOf r := by
        rw [ProfState.keyOf, ProfState.keyOf, hsub, Function.update_of_ne hrk]
      rw [hsub, Function.update_of_ne hrk] at hr
      have howner := hinv.owner r hr
      have hne : s.keyOf r ≠ k := by
        intro heq
        rw [heq, hvacant.info] at howner
        exact Bool.false_ne_true howner
      rw [hkey, hinfo, Function.update_of_ne hne]
      exact howner
  · rw [hrunning]
    apply hinv.uniq.cons
    rintro ⟨j, c⟩ hmem rfl
    exact hvacant.running c hmem

theorem FdInv.fill (hfd : FdInv s) : FdInv (filled s ctx k i) := by
  intro c
  have hrunning : (filled s ctx k i).running = (k, ctx) :: s.running := rfl
  have hnum : (filled s ctx k i).fdNum = Function.update s.fdNum ctx (s.fdNum ctx + 1) := rfl
  have hc := hfd c
  rw [hrunning, hnum, List.countP_cons]
  by_cases hcc : c = ctx
  · subst hcc
    simp [hc]
  · simp [hcc, Ne.symm hcc, hc]

/-! ## What the calls do -/

theorem profAllocSubChannelId_cases (hinv : ChannelInv chip s) (ctx : ℕ) (k : ChannelKey)
    (sub : Option ℕ) :
    (∃ ret, profAllocSubChannelId chip s ctx k sub = .error ret) ∨
      ∃ i, Vacant s k ∧ i < chip.subChannelNumMax ∧
        (s.subResource (k.sub i)).procCtx = none ∧
        profAllocSubChannelId chip s ctx k sub = .ok (i, profAddToSubResourceInfo s ctx k i) := by
  unfold profAllocSubChannelId
  split_ifs
  · exact .inl ⟨_, rfl⟩
  · cases hsub : profGetAvailableSubChannel chip s k sub with
    | none => exact .inl ⟨_, rfl⟩
    | some i =>
        obtain ⟨rfl, hi⟩ := Option.filter_eq_some_iff.mp hsub
        rw [Bool.and_eq_true, decide_eq_true_eq, decide_eq_true_eq] at hi
        dsimp only
        split_ifs with hfull
        · exact .inl ⟨_, rfl⟩
        · refine .inr ⟨i, ?_, hi.1, hi.2, rfl⟩
          rcases hinv.cases k with hvacant | ⟨i', ctx', hocc⟩
          · exact hvacant
          · rw [hocc.info] at hfull
            exact absurd (Nat.le_refl 1) hfull

/-- A start fills a vacant channel, or leaves a free sub-channel as it was. -/
def Started (chip : Chip) (s : ProfState) (ctx : ℕ) (k : ChannelKey) (t : ProfState) : Prop :=
  t = s ∨ ∃ i, Vacant s k ∧ i < chip.subChannelNumMax ∧
    (s.subResource (k.sub i)).procCtx = none ∧
    (t = filled s ctx k i ∨ t = s.setSub (k.sub i) ⟨none, chip.vfidNumMax, .idle⟩)

theorem setState_setState {a b : ProfChannelState} :
    (s.setState r a).setState r b = s.setState r b := by
  simp [ProfState.setState, ProfState.setSub]

theorem free_added (chip : Chip) (ctx i : ℕ) (hvacant : Vacant s k) :
    profFreeSubChannelResource chip (profAddToSubResourceInfo s ctx k i) (k.sub i) =
      s.setSub (k.sub i) ⟨none, chip.vfidNumMax, .idle⟩ := by
  have hsame : (profAddToSubResourceInfo s ctx k i).setState (k.sub i) .disable =
      profAddToSubResourceInfo s ctx k i := by
    simp [profAddToSubResourceInfo, ProfState.setState, ProfState.setSub]
  rw [← free_add chip ctx i hvacant .disable, hsame]

theorem profAgentStart_spec (hinv : ChannelInv chip s) (sub : Option ℕ) (how : AgentStart) :
    Started chip s ctx k (profAgentStart chip s ctx k sub how).2 := by
  unfold profAgentStart
  split_ifs
  · exact .inl rfl
  · rcases profAllocSubChannelId_cases hinv ctx k sub with
      ⟨ret, halloc⟩ | ⟨i, hvacant, hlt, hfree, halloc⟩
    · cases how <;> rw [halloc] <;> exact .inl rfl
    · have hfailed := free_added chip ctx i hvacant
      cases how with
      | paraInvalid => exact .inl rfl
      | initFailed => rw [halloc]; exact .inr ⟨i, hvacant, hlt, hfree, .inr hfailed⟩
      | processFailed => rw [halloc]; exact .inr ⟨i, hvacant, hlt, hfree, .inr hfailed⟩
      | started => rw [halloc]; exact .inr ⟨i, hvacant, hlt, hfree, .inl rfl⟩

theorem profTscpuStart_spec (hinv : ChannelInv chip s) (sub : Option ℕ) (how : TscpuStart) :
    Started chip s ctx k (profTscpuStart chip s ctx k sub how).2 := by
  unfold profTscpuStart
  split_ifs
  · exact .inl rfl
  · rcases profAllocSubChannelId_cases hinv ctx k sub with
      ⟨ret, halloc⟩ | ⟨i, hvacant, hlt, hfree, halloc⟩
    · cases how <;> rw [halloc] <;> cases ret <;> exact .inl rfl
    · have hinit := free_added chip ctx i hvacant
      have hfailed := free_add chip ctx i hvacant .disable
      cases how with
      | paraInvalid => exact .inl rfl
      | initFailed => rw [halloc]; exact .inr ⟨i, hvacant, hlt, hfree, .inr hinit⟩
      | messagesFailed => rw [halloc]; exact .inr ⟨i, hvacant, hlt, hfree, .inr hfailed⟩
      | sendFailed => rw [halloc]; exact .inr ⟨i, hvacant, hlt, hfree, .inr hfailed⟩
      | ackError =>
          rw [halloc]
          refine .inr ⟨i, hvacant, hlt, hfree, .inr ?_⟩
          dsimp only
          rw [setState_setState]
          exact hfailed
      | started =>
          rw [halloc]
          refine .inr ⟨i, hvacant, hlt, hfree, .inl ?_⟩
          dsimp only
          rw [setState_setState]
          rfl

/-- The end of a stop does not depend on the state that the channel is in. -/
theorem profStopEnd_setState {state : ProfChannelState} :
    profStopEnd chip (s.setState r state) r = profStopEnd chip s r := by
  have hfree : profChannelInfoFree (s.setState r state) r = profChannelInfoFree s r := by
    simp [profChannelInfoFree, ProfState.setState, ProfState.setSub]
  rw [profStopEnd, hfree, profStopEnd]

/-- A stop leaves the channels alone, or stops the one that its context has. -/
def Stopped (chip : Chip) (s : ProfState) (ctx : ℕ) (k : ChannelKey) (t : ProfState) : Prop :=
  t = s ∨ ∃ i, profGetSubChannelInfoFromCtx chip s ctx k = some i ∧
    t = profStopEnd chip s (k.sub i)

/-- Whatever the stop waits for, it goes on to its end. -/
theorem profStopWaitBuffReadOver_spec (hctx : (s.subResource r).procCtx = some ctx)
    (lastData : ReadOver) :
    ∃ t, profStopWaitBuffReadOver s r ctx lastData = (.ok, t) ∧
      (t = s ∨ t = s.setState r .enable) := by
  cases lastData with
  | noData => exact ⟨s, rfl, .inl rfl⟩
  | timedOut =>
      refine ⟨s.setState r .enable, ?_, .inr rfl⟩
      rw [profStopWaitBuffReadOver, setState_setState]
  | readOver =>
      refine ⟨s.setState r .enable, ?_, .inr rfl⟩
      rw [profStopWaitBuffReadOver, setState_setState]
      simp [profStopChannelStatusCheck, ProfState.setState, ProfState.setSub, hctx]

theorem stop_after_wait {state : ProfChannelState}
    (hctx : (s.subResource r).procCtx = some ctx) (lastData : ReadOver) :
    (match profStopWaitBuffReadOver (s.setState r state) r ctx lastData with
      | (.ok, s) => (ProfRet.ok, profStopEnd chip s r)
      | (_, s) => (.stoppedAlready, s)).2 = profStopEnd chip s r := by
  have hctx' : ((s.setState r state).subResource r).procCtx = some ctx := by
    rw [ProfState.setState, setSub_self]
    exact hctx
  obtain ⟨t, ht, hcases⟩ := profStopWaitBuffReadOver_spec hctx' lastData
  rw [ht]
  dsimp only
  rcases hcases with rfl | rfl
  · exact profStopEnd_setState
  · rw [setState_setState, profStopEnd_setState]

/-- The shared part of a stop refuses, or goes on with the sub-channel it found. -/
theorem profStopWith_spec (hinv : ChannelInv chip s) {stop : SubKey → ProfRet × ProfState}
    (hstop : ∀ r, (s.subResource r).procCtx = some ctx → (stop r).2 = profStopEnd chip s r) :
    Stopped chip s ctx k (profStopWith chip s ctx k stop).2 := by
  unfold profStopWith
  split_ifs
  · exact .inl rfl
  · cases hfound : profGetSubChannelInfoFromCtx chip s ctx k with
    | none => exact .inl rfl
    | some i =>
        have hocc := hinv.found hfound
        have hctx : (s.subResource (k.sub i)).procCtx = some ctx := by rw [hocc.sub]
        have hcheck : profStopChannelStatusCheck s (k.sub i) ctx = .ok := by
          simp [profStopChannelStatusCheck, hocc.sub]
        dsimp only
        rw [hcheck]
        exact .inr ⟨i, hfound, hstop _ hctx⟩

theorem profDrvStop_spec (hinv : ChannelInv chip s) (w : StopWait) :
    Stopped chip s ctx k (profDrvStop chip s ctx k w).2 := by
  unfold profDrvStop
  split
  · apply profStopWith_spec hinv
    intro r hctx
    split_ifs
    · exact stop_after_wait hctx w.lastData
    · rfl
  · apply profStopWith_spec hinv
    intro r hctx
    dsimp only
    split_ifs
    · exact profStopEnd_setState
    · rw [setState_setState]
      exact profStopEnd_setState
    · rw [setState_setState]
      exact stop_after_wait hctx w.lastData
  · exact .inl rfl

theorem profHdcSessionChannelFree_spec (hinv : ChannelInv chip s) :
    Stopped chip s ctx k (profHdcSessionChannelFree chip s ctx k) := by
  unfold profHdcSessionChannelFree
  cases hfound : profGetSubChannelInfoFromCtx chip s ctx k with
  | none => exact .inl rfl
  | some i =>
      have hocc := hinv.found hfound
      have hstate : (s.subResource (k.sub i)).channelState ≠ .disable := by simp [hocc.sub]
      dsimp only
      rw [if_neg hstate]
      exact .inr ⟨i, hfound, rfl⟩

theorem profStopEnd_eq (hocc : Occupied chip s k i ctx) :
    profStopEnd chip s (k.sub i) =
      { vacated chip s k i with fdNum := Function.update s.fdNum ctx (s.fdNum ctx - 1) } := by
  have hsub : (profChannelInfoFree s (k.sub i)).subResource (k.sub i) =
      ⟨some ctx, k.vfid, .disable⟩ := by
    simp [profChannelInfoFree, ProfState.setState, ProfState.setSub, hocc.sub]
  have hinfo : (profChannelInfoFree s (k.sub i)).channelInfo k = .occupied i := hocc.info
  rw [profStopEnd, free_eq hinfo (by rw [hsub])]
  simp [vacated, profChannelInfoFree, ProfState.setState, ProfState.setSub, hocc.sub]

/-- The stop of a device gives the slot back and does not count. -/
theorem profSubChannelStop_spec (hinv : ChannelInv chip s) (k : ChannelKey) (i : ℕ) :
    profSubChannelStop chip s k i = s ∨
      ∃ ctx, Occupied chip s k i ctx ∧ profSubChannelStop chip s k i = vacated chip s k i := by
  unfold profSubChannelStop
  dsimp only
  split_ifs with hslot
  · exact .inl rfl
  · exact .inl rfl
  · rw [Bool.not_eq_false] at hslot
    rcases hinv.cases k with hvacant | ⟨j, ctx, hocc⟩
    · rw [hvacant.info] at hslot
      exact absurd hslot Bool.false_ne_true
    · rw [hocc.info, occupied_slot] at hslot
      subst hslot
      refine .inr ⟨ctx, hocc, ?_⟩
      have hinfo : (s.setState (k.sub i) .disable).channelInfo k = .occupied i := hocc.info
      have hvfid : ((s.setState (k.sub i) .disable).subResource (k.sub i)).vfid = k.vfid := by
        simp [ProfState.setState, setSub_self, hocc.sub]
      rw [free_eq hinfo hvfid]
      simp [vacated, ProfState.setState, ProfState.setSub]

/-! ## Runs -/

theorem ChannelInv.congr (hinv : ChannelInv chip s) (hinfo : t.channelInfo = s.channelInfo)
    (hsub : t.subResource = s.subResource) (hrunning : t.running = s.running) :
    ChannelInv chip t := by
  obtain ⟨hcases, howner, huniq⟩ := hinv
  refine ⟨?_, ?_, hrunning ▸ huniq⟩
  · intro k
    rcases hcases k with hvacant | ⟨i, ctx, hocc⟩
    · exact .inl ⟨hinfo ▸ hvacant.info, hrunning ▸ hvacant.running⟩
    · exact .inr ⟨i, ctx, hocc.lt, hinfo ▸ hocc.info, hsub ▸ hocc.sub, hrunning ▸ hocc.running⟩
  · intro r hr
    rw [hsub] at hr
    rw [ProfState.keyOf, hinfo, hsub]
    exact howner r hr

theorem ChannelInv.started (hinv : ChannelInv chip s) (h : Started chip s ctx k t) :
    ChannelInv chip t := by
  obtain rfl | ⟨i, hvacant, hlt, hfree, rfl | rfl⟩ := h
  · exact hinv
  · exact hinv.fill hvacant hlt hfree
  · exact hinv.reset hfree rfl

theorem FdInv.started (hfd : FdInv s) (h : Started chip s ctx k t) : FdInv t := by
  obtain rfl | ⟨i, -, -, -, rfl | rfl⟩ := h
  · exact hfd
  · exact hfd.fill
  · exact hfd

theorem ChannelInv.stopped (hinv : ChannelInv chip s) (h : Stopped chip s ctx k t) :
    ChannelInv chip t := by
  obtain rfl | ⟨i, hfound, rfl⟩ := h
  · exact hinv
  · have hocc := hinv.found hfound
    rw [profStopEnd_eq hocc]
    exact (hinv.vacate hocc).congr rfl rfl rfl

/-- A stop takes one channel from those that its context runs. -/
theorem FdInv.stopped (hfd : FdInv s) (hinv : ChannelInv chip s) (h : Stopped chip s ctx k t) :
    FdInv t := by
  obtain rfl | ⟨i, hfound, rfl⟩ := h
  · exact hfd
  · have hocc := hinv.found hfound
    have hperm := (hinv.uniq.focus hocc.running).perm
    rw [profStopEnd_eq hocc]
    intro c
    have hc := hfd c
    rw [hperm.countP_eq, List.countP_cons] at hc
    change Function.update s.fdNum ctx (s.fdNum ctx - 1) c =
      ((Keyed.remove Prod.fst k s.running).countP fun x => x.2 = c : ℕ)
    by_cases hcc : c = ctx
    · subst hcc
      rw [Function.update_self, hc]
      simp
    · rw [Function.update_of_ne hcc, hc]
      simp [Ne.symm hcc]

theorem ChannelInv.subStopped (hinv : ChannelInv chip s) (k : ChannelKey) (i : ℕ) :
    ChannelInv chip (profSubChannelStop chip s k i) := by
  rcases profSubChannelStop_spec hinv k i with heq | ⟨ctx, hocc, heq⟩
  · rw [heq]
    exact hinv
  · rw [heq]
    exact hinv.vacate hocc

/-- A device stop that meets no started channel does nothing. -/
theorem profSubChannelStop_eq_self (h : (s.channelInfo k).subChannelInfo i = false) :
    profSubChannelStop chip s k i = s :=
  if_pos h

theorem ChannelInv.release (hinv : ChannelInv chip s) (wait : ChannelKey → StopWait)
    (keys : List ChannelKey) : ChannelInv chip (profDrvRelease chip s ctx wait keys) := by
  induction keys generalizing s with
  | nil => exact hinv
  | cons k keys ih =>
      unfold profDrvRelease
      split
      · exact ih hinv
      · exact ih (hinv.stopped (profDrvStop_spec hinv (wait k)))

theorem FdInv.release (hfd : FdInv s) (hinv : ChannelInv chip s) (wait : ChannelKey → StopWait)
    (keys : List ChannelKey) : FdInv (profDrvRelease chip s ctx wait keys) := by
  induction keys generalizing s with
  | nil => exact hfd
  | cons k keys ih =>
      unfold profDrvRelease
      split
      · exact ih hfd hinv
      · have hstop : Stopped chip s ctx k (profDrvStop chip s ctx k (wait k)).2 :=
          profDrvStop_spec hinv (wait k)
        exact ih (hfd.stopped hinv hstop) (hinv.stopped hstop)

theorem ChannelInv.step {a : ChannelStep} (hinv : ChannelInv chip s)
    (h : channelStep chip s a = some t) : ChannelInv chip t := by
  cases a with
  | agentStart ctx k sub how =>
      obtain rfl := Option.some.inj h
      exact hinv.started (profAgentStart_spec hinv sub how)
  | tscpuStart ctx k sub how =>
      obtain rfl := Option.some.inj h
      exact hinv.started (profTscpuStart_spec hinv sub how)
  | stop ctx k w =>
      obtain rfl := Option.some.inj h
      exact hinv.stopped (profDrvStop_spec hinv w)
  | release ctx wait keys =>
      obtain rfl := Option.some.inj h
      exact hinv.release wait keys
  | sessionFree ctx k =>
      obtain rfl := Option.some.inj h
      exact hinv.stopped (profHdcSessionChannelFree_spec hinv)
  | deviceUnused deviceId =>
      obtain rfl := Option.some.inj h
      exact hinv.congr rfl rfl rfl
  | agentSubChannelStop k i =>
      obtain rfl := Option.some.inj h
      unfold profAgentSubChannelStop
      split_ifs
      · exact hinv
      · exact hinv.subStopped k i
  | tscpuSubChannelStop k i =>
      obtain rfl := Option.some.inj h
      exact hinv.subStopped k i

theorem FdInv.step {a : ChannelStep} (hfd : FdInv s) (hinv : ChannelInv chip s)
    (hok : ChannelOk s a) (h : channelStep chip s a = some t) : FdInv t := by
  cases a with
  | agentStart ctx k sub how =>
      obtain rfl := Option.some.inj h
      exact hfd.started (profAgentStart_spec hinv sub how)
  | tscpuStart ctx k sub how =>
      obtain rfl := Option.some.inj h
      exact hfd.started (profTscpuStart_spec hinv sub how)
  | stop ctx k w =>
      obtain rfl := Option.some.inj h
      exact hfd.stopped hinv (profDrvStop_spec hinv w)
  | release ctx wait keys =>
      obtain rfl := Option.some.inj h
      exact hfd.release hinv wait keys
  | sessionFree ctx k =>
      obtain rfl := Option.some.inj h
      exact hfd.stopped hinv (profHdcSessionChannelFree_spec hinv)
  | deviceUnused deviceId =>
      obtain rfl := Option.some.inj h
      exact hfd
  | agentSubChannelStop k i =>
      obtain rfl := Option.some.inj h
      rw [profAgentSubChannelStop, profSubChannelStop_eq_self hok, ite_self]
      exact hfd
  | tscpuSubChannelStop k i =>
      obtain rfl := Option.some.inj h
      rw [profTscpuSubChannelStop, profSubChannelStop_eq_self hok]
      exact hfd

theorem channelInv_start : ChannelInv chip ProfState.start :=
  ⟨fun _ => .inl ⟨rfl, fun _ => List.not_mem_nil⟩, fun _ hr => absurd rfl hr, List.nodup_nil⟩

/-- The slots are right whatever is stopped. -/
theorem ChannelInv.of_reach (h : (channelMachine chip).Reach s) : ChannelInv chip s := by
  apply h.invariant
  · rintro _ rfl
    exact channelInv_start
  · intro s a t hinv _ hstep
    exact hinv.step hstep

theorem FdInv.of_reach (h : (channelMachine chip).ReachIf ChannelOk s) : FdInv s := by
  have hboth : ChannelInv chip s ∧ FdInv s := by
    apply h.invariant
    · rintro _ rfl
      exact ⟨channelInv_start, fun _ => rfl⟩
    · intro s a t hs hok hstep
      exact ⟨hs.1.step hstep, hs.2.step hs.1 hok hstep⟩
  exact hboth.2

theorem countP_single {n : ℕ} (hi : i < n) :
    (List.range n).countP (ChannelInfo.occupied i).subChannelInfo = 1 := by
  have hcount := List.count_eq_one_of_mem List.nodup_range (List.mem_range.mpr hi)
  rw [← hcount, List.count]
  apply List.countP_congr
  intro j _
  rw [occupied_slot, beq_iff_eq]

/-- The used slots of a channel are counted, within the maximum. -/
theorem ChannelInv.used (hinv : ChannelInv chip s) (k : ChannelKey) :
    (s.channelInfo k).channelUsedCount =
        (List.range chip.subChannelNumMax).countP (s.channelInfo k).subChannelInfo ∧
      (s.channelInfo k).channelUsedCount ≤ (s.channelInfo k).channelUsedNumMax := by
  rcases hinv.cases k with hvacant | ⟨i, ctx, hocc⟩
  · rw [hvacant.info]
    exact ⟨(List.countP_eq_zero.mpr fun _ _ => Bool.false_ne_true).symm, Nat.zero_le _⟩
  · rw [hocc.info, countP_single hocc.lt]
    exact ⟨rfl, Nat.le_refl _⟩

/-- A context runs a channel when it has a slot of it. -/
theorem ChannelInv.running_iff (hinv : ChannelInv chip s) :
    (k, ctx) ∈ s.running ↔ ∃ i, (s.channelInfo k).subChannelInfo i = true ∧
      (s.subResource (k.sub i)).procCtx = some ctx := by
  rcases hinv.cases k with hvacant | ⟨i, ctx', hocc⟩
  · simp [hvacant.info, hvacant.running, ChannelInfo.vacant]
  · constructor
    · intro hmem
      obtain rfl : ctx = ctx' :=
        congrArg Prod.snd (hinv.uniq.eq_of_key hmem hocc.running rfl)
      exact ⟨i, hocc.info ▸ occupied_slot.mpr rfl, by rw [hocc.sub]⟩
    · rintro ⟨j, hslot, hctx⟩
      rw [hocc.info, occupied_slot] at hslot
      rw [hslot, hocc.sub] at hctx
      exact Option.some.inj hctx ▸ hocc.running

/-- The counts are those of the slots and of the running channels, and a poll says
that everything is stopped when nothing runs. -/
theorem channel_accounting (h : (channelMachine chip).ReachIf ChannelOk s) :
    (∀ k, (s.channelInfo k).channelUsedCount =
        (List.range chip.subChannelNumMax).countP (s.channelInfo k).subChannelInfo ∧
      (s.channelInfo k).channelUsedCount ≤ (s.channelInfo k).channelUsedNumMax) ∧
    (∀ k ctx i j, (s.channelInfo k).subChannelInfo i = true →
      (s.subResource (k.sub i)).procCtx = some ctx → (s.channelInfo k).subChannelInfo j = true →
      (s.subResource (k.sub j)).procCtx = some ctx → i = j) ∧
    (∀ k ctx, (k, ctx) ∈ s.running ↔ ∃ i, (s.channelInfo k).subChannelInfo i = true ∧
      (s.subResource (k.sub i)).procCtx = some ctx) ∧
    (∀ ctx, s.fdNum ctx = (s.running.countP fun x => x.2 = ctx : ℕ)) ∧
    ∀ ctx, profPollStopped s ctx ↔ ∀ k, (k, ctx) ∉ s.running := by
  have hinv := ChannelInv.of_reach h.reach
  have hfd := FdInv.of_reach h
  refine ⟨hinv.used, ?_, fun _ _ => hinv.running_iff, hfd, ?_⟩
  · intro k ctx i j hi _ hj _
    rcases hinv.cases k with hvacant | ⟨i', ctx', hocc⟩
    · rw [hvacant.info] at hi
      exact absurd hi Bool.false_ne_true
    · rw [hocc.info, occupied_slot] at hi hj
      exact hi.trans hj.symm
  · intro ctx
    have hzero : profPollStopped s ctx ↔ (s.running.countP fun x => x.2 = ctx) = 0 := by
      rw [profPollStopped, hfd ctx]
      omega
    rw [hzero, List.countP_eq_zero]
    constructor
    · intro hnone k hmem
      exact hnone _ hmem (decide_eq_true rfl)
    · rintro hnone ⟨k, c⟩ hmem hc
      exact hnone k (of_decide_eq_true hc ▸ hmem)

/-- A chip with one sub-channel for each channel, all of them peripheral. -/
def oneSubChannel : Chip := ⟨1, 1, fun _ => some .peripheral⟩

/-- A start, a start that fails, a second start, and the release of the context. -/
theorem channel_accounting_released :
    let a : ChannelKey := ⟨0, 0, 1⟩
    let b : ChannelKey := ⟨0, 0, 2⟩
    let s := (channelMachine oneSubChannel).final ProfState.start
      [.agentStart 7 a (some 0) .started, .agentStart 7 b (some 0) .initFailed,
        .agentStart 7 b (some 0) .started, .stop 7 a ⟨true, true, true, .timedOut⟩]
    s.fdNum 7 = 1 ∧ s.fdNum 7 = (s.running.countP fun x => x.2 = 7 : ℕ) :=
  have hreach : (channelMachine oneSubChannel).ReachIf ChannelOk
      ((channelMachine oneSubChannel).final ProfState.start
        [.agentStart 7 ⟨0, 0, 1⟩ (some 0) .started, .agentStart 7 ⟨0, 0, 2⟩ (some 0) .initFailed,
          .agentStart 7 ⟨0, 0, 2⟩ (some 0) .started,
          .stop 7 ⟨0, 0, 1⟩ ⟨true, true, true, .timedOut⟩]) :=
    .final (.start rfl) (by decide +kernel) (by decide +kernel)
  ⟨by decide +kernel, (channel_accounting hreach).2.2.2.1 7⟩

/-- The stop of the device leaves the context with a channel too many. -/
theorem stopped_still_counted :
    ∃ s, (channelMachine oneSubChannel).Reach s ∧ s.running = [] ∧ s.fdNum 7 = 1 ∧
      ¬profPollStopped s 7 := by
  refine ⟨(channelMachine oneSubChannel).final ProfState.start
    [.agentStart 7 ⟨0, 0, 1⟩ (some 0) .started, .deviceUnused 0,
      .agentSubChannelStop ⟨0, 0, 1⟩ 0], .final (.start rfl) (by decide +kernel),
    by decide +kernel, by decide +kernel, ?_⟩
  unfold profPollStopped
  decide +kernel

end OpiaiKernel.Prof.Channels
