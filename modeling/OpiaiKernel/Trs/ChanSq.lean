import OpiaiKernel.Errno
import OpiaiKernel.Lib.Machine
import OpiaiKernel.Lib.Ring

/-!
# The submission queue of a channel

A send writes a batch of SQEs behind the tail of the ring, one after the other,
and then tells the device the new tail.  The device consumes the SQEs that it
was told of and reports its head, at any time between two accesses of a send;
a full ring makes a send wait or fail.

The functions are translated from `chan_rxtx.c` under their own names.  A send
is a sequence of steps: a check for room, a wait, a copy, the update of the
device.  Sends follow one another, as the semaphore of the queue has it.  A
report carries the index that the device gives and the number of SQEs that it
consumed since the last one.
-/

namespace OpiaiKernel.Trs

/-- `struct trs_chan_sq_ctx`; the memory is a function of the slot. -/
structure TrsChanSqCtx (α : Type) where
  status : ℕ
  sqHead : ℕ
  sqTail : ℕ
  sqDepth : ℕ
  sqAddr : ℕ → α

/-- What a send does next for an SQE: look for room, wait for it or copy. -/
inductive SendPhase
  | room
  | wait
  | copy
  deriving DecidableEq

/-- A call of `trs_chan_submit`: the tail it started from, the SQEs that are
left, the number of those sent and the time left. -/
structure TrsChanSend (α : Type) where
  sqTail : ℕ
  sqe : List α
  sendSqeNum : ℕ
  timeout : ℤ
  phase : SendPhase

/-- The queue and the send in progress, with the SQEs that were written and not
withdrawn since the channel exists, how many the device was told of and how
many it consumed. -/
structure ChanSqState (α : Type) where
  sq : TrsChanSqCtx α
  send : Option (TrsChanSend α)
  submitted : List α
  published : ℕ
  consumed : ℕ

/-- What the device reports: its head, and how many SQEs it consumed. -/
structure SqHeadReport where
  sqHead : ℕ
  newly : ℕ

def TRS_SQCQ_DEPTH_MAX : ℕ := 65535

variable {α : Type}

/-! ## The ring -/

def trsChanSqIsFull (sq : TrsChanSqCtx α) : Prop := (sq.sqTail + 1) % sq.sqDepth = sq.sqHead

instance (sq : TrsChanSqCtx α) : Decidable (trsChanSqIsFull sq) :=
  inferInstanceAs (Decidable (_ = _))

def trsChanUpdateSqHead (sq : TrsChanSqCtx α) (sqHead : ℕ) : Except Errno Unit × TrsChanSqCtx α :=
  if sq.sqDepth ≤ sqHead then (.error .EINVAL, sq) else (.ok (), { sq with sqHead })

def trsChanSetSqHead (sq : TrsChanSqCtx α) (sqHead : ℕ) (sqcqCtrl : Except Errno Unit) :
    Except Errno Unit × TrsChanSqCtx α :=
  match sqcqCtrl with
  | .error e => if sqHead < sq.sqDepth then (.error e, sq) else trsChanUpdateSqHead sq sqHead
  | .ok () => trsChanUpdateSqHead sq sqHead

/-- `none` is a query that fails, or a channel that is not of the hardware. -/
def trsChanUpdateSqHeadFromHw (s : ChanSqState α) : Option SqHeadReport → Bool × ChanSqState α
  | none => (false, s)
  | some r =>
      (true, { s with sq := { s.sq with sqHead := r.sqHead }, consumed := s.consumed + r.newly })

/-- The state with what a full ring learns from the device. -/
def trsChanIsFull (s : ChanSqState α) (hw : Option SqHeadReport) : Bool × ChanSqState α :=
  if ¬ trsChanSqIsFull s.sq then (false, s)
  else
    let s := (trsChanUpdateSqHeadFromHw s hw).2
    (trsChanSqIsFull s.sq, s)

/-- What the dispatch of a CQE does for the queue: the head comes from the
device, or from the CQE when the query fails. -/
def trsChanTryToUpdateSqHead (s : ChanSqState α) (hw : Option SqHeadReport)
    (cqe : SqHeadReport) : ChanSqState α :=
  match trsChanUpdateSqHeadFromHw s hw with
  | (true, s) => s
  | (false, s) =>
      { s with
        sq := (trsChanUpdateSqHead s.sq cqe.sqHead).2
        consumed := s.consumed + cqe.newly }

/-! ## A send -/

/-- `trs_chan_submit` after `trs_chan_fill_sqe` returned an error: the send
tries again as long as there is time left, and otherwise ends. -/
def submitError (s : ChanSqState α) (send : TrsChanSend α) (e : Errno) : ChanSqState α :=
  if e ≠ .ETIMEDOUT then { s with send := none }
  else if send.timeout = -1 then { s with send := some { send with phase := .room } }
  else if send.timeout - 1 < 0 then { s with send := none }
  else { s with send := some { send with timeout := send.timeout - 1, phase := .room } }

/-- The send starts unless the queue is disabled; in a softirq it never waits. -/
def trsChanSendEx (s : ChanSqState α) (sqe : List α) (timeout : ℤ) (inSoftirq : Bool) :
    Option (ChanSqState α) :=
  match s.send with
  | some _ => none
  | none =>
      if s.sq.status = 0 then some s
      else some { s with
        send := some { sqTail := s.sq.sqTail, sqe, sendSqeNum := 0
                       timeout := if inSoftirq then 0 else timeout, phase := .room } }

/-- The first check of `trs_chan_fill_sqe`. -/
def fillSqeRoom (s : ChanSqState α) (send : TrsChanSend α) (hw : Option SqHeadReport) :
    ChanSqState α :=
  match trsChanIsFull s hw with
  | (false, s) => { s with send := some { send with phase := .copy } }
  | (true, s) =>
      if send.timeout = 0 then submitError s send .ENOSPC
      else { s with send := some { send with phase := .wait } }

/-- The end of `trs_chan_submit_wait` and the second check. -/
def fillSqeWait (s : ChanSqState α) (send : TrsChanSend α) (ret : Except Errno Unit)
    (hw : Option SqHeadReport) : ChanSqState α :=
  match ret with
  | .error e => submitError s send e
  | .ok () =>
      match trsChanIsFull s hw with
      | (false, s) => { s with send := some { send with phase := .copy } }
      | (true, s) => submitError s send .ETIMEDOUT

/-- The copy goes to the ring directly in local memory, so that a failure may
leave the value `dst` in the slot. -/
def sqeLeft (s : ChanSqState α) : Option α → ChanSqState α
  | none => s
  | some x => { s with sq := { s.sq with sqAddr := Function.update s.sq.sqAddr s.sq.sqTail x } }

/-- The SQE is copied and updated, and the tail is moved. -/
def fillSqeCopy (s : ChanSqState α) (send : TrsChanSend α) (sqe : α) (rest : List α)
    (copied : Bool) (sqeUpdate : α → Except Errno α) (dst : Option α) : ChanSqState α :=
  if copied = false then submitError (sqeLeft s dst) send .EINVAL
  else
    match sqeUpdate sqe with
    | .error e => submitError (sqeLeft s dst) send e
    | .ok sqe =>
        { s with
          sq := { s.sq with
            sqAddr := Function.update s.sq.sqAddr s.sq.sqTail sqe
            sqTail := (s.sq.sqTail + 1) % s.sq.sqDepth }
          send := some { send with
            sqe := rest, sendSqeNum := send.sendSqeNum + 1, phase := .room }
          submitted := s.submitted ++ [sqe] }

/-- The device is told the tail; otherwise the batch is withdrawn. -/
def submitTail (s : ChanSqState α) (send : TrsChanSend α) (sqcqCtrl : Except Errno Unit) :
    ChanSqState α :=
  match sqcqCtrl with
  | .ok () => { s with send := none, published := s.submitted.length }
  | .error _ =>
      { s with
        sq := { s.sq with sqTail := send.sqTail }
        send := none
        submitted := s.submitted.take (s.submitted.length - send.sendSqeNum) }

/-! ## The machine -/

inductive ChanSqOp (α : Type)
  | send (sqe : List α) (timeout : ℤ) (inSoftirq : Bool)
  | room (hw : Option SqHeadReport)
  | wait (ret : Except Errno Unit) (hw : Option SqHeadReport)
  | copy (copied : Bool) (sqeUpdate : α → Except Errno α) (dst : Option α)
  | tail (sqcqCtrl : Except Errno Unit)
  | tryToUpdateSqHead (hw : Option SqHeadReport) (cqe : SqHeadReport)
  | updateSqHead (r : SqHeadReport)
  | setSqHead (r : SqHeadReport) (sqcqCtrl : Except Errno Unit)
  | setSqStatus (status : ℕ)

def chanSqStep (s : ChanSqState α) : ChanSqOp α → Option (ChanSqState α)
  | .send sqe timeout inSoftirq => trsChanSendEx s sqe timeout inSoftirq
  | .room hw =>
      match s.send with
      | some send =>
          match send.sqe, send.phase with
          | _ :: _, .room => some (fillSqeRoom s send hw)
          | _, _ => none
      | none => none
  | .wait ret hw =>
      match s.send with
      | some send => if send.phase = .wait then some (fillSqeWait s send ret hw) else none
      | none => none
  | .copy copied sqeUpdate dst =>
      match s.send with
      | some send =>
          match send.sqe, send.phase with
          | sqe :: rest, .copy => some (fillSqeCopy s send sqe rest copied sqeUpdate dst)
          | _, _ => none
      | none => none
  | .tail sqcqCtrl =>
      match s.send with
      | some send => if send.sqe = [] then some (submitTail s send sqcqCtrl) else none
      | none => none
  | .tryToUpdateSqHead hw cqe => some (trsChanTryToUpdateSqHead s hw cqe)
  | .updateSqHead r =>
      some { s with sq := (trsChanUpdateSqHead s.sq r.sqHead).2, consumed := s.consumed + r.newly }
  | .setSqHead r sqcqCtrl =>
      some { s with
        sq := (trsChanSetSqHead s.sq r.sqHead sqcqCtrl).2
        consumed := s.consumed + if sqcqCtrl = .ok () then r.newly else 0 }
  | .setSqStatus status => some { s with sq := { s.sq with status } }

/-- A channel with an empty ring of a depth that its allocation accepts. -/
def chanSqMachine (α : Type) : Machine (ChanSqState α) (ChanSqOp α) where
  init s :=
    0 < s.sq.sqDepth ∧ s.sq.sqDepth ≤ TRS_SQCQ_DEPTH_MAX ∧ s.sq.sqHead = 0 ∧ s.sq.sqTail = 0 ∧
      s.send = none ∧ s.submitted = [] ∧ s.published = 0 ∧ s.consumed = 0
  step := chanSqStep

/-! ## The reports of the device -/

/-- The device reports SQEs that it was told of. -/
def WithinPublished (s : ChanSqState α) (r : SqHeadReport) : Prop :=
  s.consumed + r.newly ≤ s.published ∧ r.sqHead = (s.sq.sqHead + r.newly) % s.sq.sqDepth

/-- A head that the queue rejects. -/
def Rejected (s : ChanSqState α) (r : SqHeadReport) : Prop :=
  s.sq.sqDepth ≤ r.sqHead ∧ r.newly = 0

/-- Every report of the step is within the published range, or is one that the
queue rejects. -/
def HeadsWithin (s : ChanSqState α) : ChanSqOp α → Prop
  | .room hw => ∀ r ∈ hw, WithinPublished s r
  | .wait _ hw => ∀ r ∈ hw, WithinPublished s r
  | .tryToUpdateSqHead hw cqe =>
      (∀ r ∈ hw, WithinPublished s r) ∧
        (hw = none → WithinPublished s cqe ∨ Rejected s cqe)
  | .updateSqHead r => WithinPublished s r ∨ Rejected s r
  | .setSqHead r _ => WithinPublished s r ∨ Rejected s r
  | _ => True

/-! ## The invariant -/

/-- The slots from head to tail hold the SQEs that the device has not consumed. -/
structure RingInv (s : ChanSqState α) : Prop where
  head_lt : s.sq.sqHead < s.sq.sqDepth
  tail_lt : s.sq.sqTail < s.sq.sqDepth
  pending : Ring.count s.sq.sqDepth s.sq.sqHead s.sq.sqTail + s.consumed = s.submitted.length
  consumed_le : s.consumed ≤ s.published
  published_le : s.published ≤ s.submitted.length
  content : Ring.content s.sq.sqAddr s.sq.sqDepth s.sq.sqHead
    (Ring.count s.sq.sqDepth s.sq.sqHead s.sq.sqTail) = s.submitted.drop s.consumed

/-- The batch of a send is the last of the submitted SQEs, and not published. -/
structure SendInv (s : ChanSqState α) (send : TrsChanSend α) : Prop where
  start_lt : send.sqTail < s.sq.sqDepth
  start : Ring.count s.sq.sqDepth s.sq.sqHead send.sqTail + s.consumed + send.sendSqeNum =
    s.submitted.length
  unpublished : s.published + send.sendSqeNum ≤ s.submitted.length
  room : send.phase = .copy → ¬ trsChanSqIsFull s.sq

structure SqInv (s : ChanSqState α) : Prop where
  ring : RingInv s
  send : ∀ send ∈ s.send, SendInv s send

section Steps

variable {s : ChanSqState α} {snd : TrsChanSend α} {r : SqHeadReport}

/-- A send ends or goes on without a change to the ring. -/
theorem RingInv.withSend (hring : RingInv s) (next : Option (TrsChanSend α)) :
    RingInv { s with send := next } :=
  ⟨hring.head_lt, hring.tail_lt, hring.pending, hring.consumed_le, hring.published_le,
    hring.content⟩

theorem sqInv_ends (hring : RingInv s) : SqInv { s with send := none } :=
  ⟨hring.withSend none, by simp⟩

theorem sqInv_goes (hring : RingInv s) (hsend : SendInv s snd) (timeout : ℤ) {phase : SendPhase}
    (hphase : phase = .copy → ¬ trsChanSqIsFull s.sq) :
    SqInv { s with send := some { snd with timeout, phase } } := by
  refine ⟨hring.withSend _, fun next hnext => ?_⟩
  obtain rfl := Option.some.inj hnext
  exact ⟨hsend.start_lt, hsend.start, hsend.unpublished, hphase⟩

theorem submitError_inv (hring : RingInv s) (hsend : SendInv s snd) (e : Errno) :
    SqInv (submitError s snd e) := by
  unfold submitError
  split
  · exact sqInv_ends hring
  · split
    · exact sqInv_goes hring hsend snd.timeout (by simp)
    · split
      · exact sqInv_ends hring
      · exact sqInv_goes hring hsend _ (by simp)

/-! ## Reports -/

theorem RingInv.full_iff (hring : RingInv s) :
    trsChanSqIsFull s.sq ↔ Ring.count s.sq.sqDepth s.sq.sqHead s.sq.sqTail + 1 = s.sq.sqDepth :=
  Ring.succ_eq_head_iff hring.head_lt hring.tail_lt

/-- The state after a report. -/
def reported (s : ChanSqState α) (r : SqHeadReport) : ChanSqState α :=
  { s with sq := { s.sq with sqHead := r.sqHead }, consumed := s.consumed + r.newly }

theorem RingInv.newly_le (hring : RingInv s) (hr : WithinPublished s r) :
    r.newly ≤ Ring.count s.sq.sqDepth s.sq.sqHead s.sq.sqTail := by
  have hpending := hring.pending
  have hpublished := hring.published_le
  have hconsumed := hr.1
  omega

theorem RingInv.count_reported (hring : RingInv s) (hr : WithinPublished s r) :
    Ring.count s.sq.sqDepth r.sqHead s.sq.sqTail =
      Ring.count s.sq.sqDepth s.sq.sqHead s.sq.sqTail - r.newly := by
  rw [hr.2]
  exact Ring.count_advance hring.head_lt hring.tail_lt (hring.newly_le hr)

theorem RingInv.report (hring : RingInv s) (hr : WithinPublished s r) :
    RingInv (reported s r) := by
  have hcount := hring.count_reported hr
  have hle := hring.newly_le hr
  have hpending := hring.pending
  refine ⟨?_, hring.tail_lt, ?_, hr.1, hring.published_le, ?_⟩
  · simp only [reported, hr.2]
    exact Nat.mod_lt _ (Nat.zero_lt_of_lt hring.head_lt)
  · simp only [reported, hcount]
    omega
  · simp only [reported, hcount]
    rw [← List.drop_drop, ← hring.content, Ring.drop_content _ hle, hr.2]
    rfl

theorem SendInv.report (hring : RingInv s) (hsend : SendInv s snd) (hr : WithinPublished s r) :
    SendInv (reported s r) snd := by
  have hstart := hsend.start
  have hunpublished := hsend.unpublished
  have hle : r.newly ≤ Ring.count s.sq.sqDepth s.sq.sqHead snd.sqTail := by
    have hconsumed := hr.1
    omega
  have hadvance : Ring.count s.sq.sqDepth r.sqHead snd.sqTail =
      Ring.count s.sq.sqDepth s.sq.sqHead snd.sqTail - r.newly := by
    rw [hr.2]
    exact Ring.count_advance hring.head_lt hsend.start_lt hle
  refine ⟨hsend.start_lt, ?_, hunpublished, fun hphase hfull => ?_⟩
  · simp only [reported, hadvance]
    omega
  · have hroom := hsend.room hphase
    rw [hring.full_iff] at hroom
    rw [(hring.report hr).full_iff] at hfull
    have hcount := hring.count_reported hr
    have hlt := Ring.count_lt (h := s.sq.sqHead) (t := s.sq.sqTail)
      (Nat.zero_lt_of_lt hring.head_lt)
    simp only [reported] at hfull
    omega

theorem SqInv.report (h : SqInv s) (hr : WithinPublished s r) : SqInv (reported s r) :=
  ⟨h.ring.report hr, fun send hsend => (h.send send hsend).report h.ring hr⟩

/-- What a full ring learns keeps the invariant. -/
theorem trsChanIsFull_inv (hring : RingInv s) (hsend : SendInv s snd) {hw : Option SqHeadReport}
    (hhw : ∀ r ∈ hw, WithinPublished s r) :
    RingInv (trsChanIsFull s hw).2 ∧ SendInv (trsChanIsFull s hw).2 snd ∧
      ((trsChanIsFull s hw).1 = false → ¬ trsChanSqIsFull (trsChanIsFull s hw).2.sq) := by
  unfold trsChanIsFull
  split
  · next hroom => exact ⟨hring, hsend, fun _ => hroom⟩
  · cases hw with
    | none => exact ⟨hring, hsend, of_decide_eq_false⟩
    | some r =>
        have hr := hhw r rfl
        exact ⟨hring.report hr, hsend.report hring hr, of_decide_eq_false⟩

theorem SqInv.updateSqHead (h : SqInv s) (hr : WithinPublished s r ∨ Rejected s r) :
    SqInv { s with
      sq := (trsChanUpdateSqHead s.sq r.sqHead).2, consumed := s.consumed + r.newly } := by
  rcases hr with hr | ⟨hge, hnone⟩
  · have hlt : ¬ s.sq.sqDepth ≤ r.sqHead := by
      rw [hr.2, Nat.not_le]
      exact Nat.mod_lt _ (Nat.zero_lt_of_lt h.ring.head_lt)
    simp only [trsChanUpdateSqHead, hlt, if_false]
    exact h.report hr
  · simp only [trsChanUpdateSqHead, hge, if_true, hnone, Nat.add_zero]
    exact h

/-! ## Steps of a send -/

/-- A slot behind the tail may hold anything. -/
theorem RingInv.write (hring : RingInv s) (x : α) :
    RingInv { s with sq := { s.sq with sqAddr := Function.update s.sq.sqAddr s.sq.sqTail x } } := by
  refine ⟨hring.head_lt, hring.tail_lt, hring.pending, hring.consumed_le, hring.published_le, ?_⟩
  calc
    _ = Ring.content s.sq.sqAddr s.sq.sqDepth s.sq.sqHead
          (Ring.count s.sq.sqDepth s.sq.sqHead s.sq.sqTail) :=
        Ring.content_update _ _ hring.head_lt hring.tail_lt le_rfl
    _ = s.submitted.drop s.consumed := hring.content

theorem fillSqeRoom_inv (h : SqInv s) (hsnd : SendInv s snd) {hw : Option SqHeadReport}
    (hhw : ∀ r ∈ hw, WithinPublished s r) : SqInv (fillSqeRoom s snd hw) := by
  obtain ⟨hring, hsend, hroom⟩ := trsChanIsFull_inv h.ring hsnd hhw
  unfold fillSqeRoom
  split
  · next s' heq =>
      rw [heq] at hring hsend hroom
      exact sqInv_goes hring hsend snd.timeout fun _ => hroom rfl
  · next s' heq =>
      rw [heq] at hring hsend
      split
      · exact submitError_inv hring hsend _
      · exact sqInv_goes hring hsend snd.timeout (by simp)

theorem fillSqeWait_inv (h : SqInv s) (hsnd : SendInv s snd) (ret : Except Errno Unit)
    {hw : Option SqHeadReport} (hhw : ∀ r ∈ hw, WithinPublished s r) :
    SqInv (fillSqeWait s snd ret hw) := by
  obtain ⟨hring, hsend, hroom⟩ := trsChanIsFull_inv h.ring hsnd hhw
  cases ret with
  | error e => exact submitError_inv h.ring hsnd e
  | ok u =>
      simp only [fillSqeWait]
      split
      · next s' heq =>
          rw [heq] at hring hsend hroom
          exact sqInv_goes hring hsend snd.timeout fun _ => hroom rfl
      · next s' heq =>
          rw [heq] at hring hsend
          exact submitError_inv hring hsend _

/-- The SQE goes into the free slot behind the tail. -/
theorem RingInv.push (hring : RingInv s) (hroom : ¬ trsChanSqIsFull s.sq) (sqe : α)
    (next : Option (TrsChanSend α)) :
    RingInv { s with
      sq := { s.sq with
        sqAddr := Function.update s.sq.sqAddr s.sq.sqTail sqe
        sqTail := (s.sq.sqTail + 1) % s.sq.sqDepth }
      send := next
      submitted := s.submitted ++ [sqe] } := by
  have hpos : 0 < s.sq.sqDepth := Nat.zero_lt_of_lt hring.head_lt
  have hlt := Ring.count_lt (h := s.sq.sqHead) (t := s.sq.sqTail) hpos
  have hfree : Ring.count s.sq.sqDepth s.sq.sqHead s.sq.sqTail + 1 < s.sq.sqDepth := by
    rw [hring.full_iff] at hroom
    omega
  have hcount := Ring.count_succ hring.head_lt hring.tail_lt hfree
  have hpending := hring.pending
  have hold := (hring.write sqe).content
  refine ⟨hring.head_lt, Nat.mod_lt _ hpos, ?_, hring.consumed_le, ?_, ?_⟩
  · simp only [hcount, List.length_append, List.length_singleton]
    omega
  · have hpublished := hring.published_le
    simp only [List.length_append, List.length_singleton]
    omega
  · simp only [hcount] at hold ⊢
    rw [Ring.content_succ _ hring.head_lt hring.tail_lt, hold, Function.update_self,
      List.drop_append_of_le_length (by omega)]

theorem SendInv.push (hsend : SendInv s snd) (sqe : α) (rest : List α) :
    SendInv { s with
      sq := { s.sq with
        sqAddr := Function.update s.sq.sqAddr s.sq.sqTail sqe
        sqTail := (s.sq.sqTail + 1) % s.sq.sqDepth }
      send := some { snd with sqe := rest, sendSqeNum := snd.sendSqeNum + 1, phase := .room }
      submitted := s.submitted ++ [sqe] }
      { snd with sqe := rest, sendSqeNum := snd.sendSqeNum + 1, phase := .room } := by
  have hstart := hsend.start
  have hunpublished := hsend.unpublished
  refine ⟨hsend.start_lt, ?_, ?_, by simp⟩
  · simp only [List.length_append, List.length_singleton]
    omega
  · simp only [List.length_append, List.length_singleton]
    omega

theorem fillSqeCopy_inv (h : SqInv s) (hsnd : SendInv s snd) (hcopy : snd.phase = .copy) (sqe : α)
    (rest : List α) (copied : Bool) (sqeUpdate : α → Except Errno α) (dst : Option α) :
    SqInv (fillSqeCopy s snd sqe rest copied sqeUpdate dst) := by
  have hfail (e : Errno) : SqInv (submitError (sqeLeft s dst) snd e) := by
    cases dst with
    | none => exact submitError_inv h.ring hsnd e
    | some x =>
        exact submitError_inv (h.ring.write x)
          ⟨hsnd.start_lt, hsnd.start, hsnd.unpublished, hsnd.room⟩ e
  unfold fillSqeCopy
  split
  · exact hfail .EINVAL
  · split
    · next e heq => exact hfail e
    · next sqe' heq =>
        refine ⟨h.ring.push (hsnd.room hcopy) sqe' _, fun next hnext => ?_⟩
        obtain rfl := Option.some.inj hnext
        exact hsnd.push sqe' rest

/-- Withdrawing the batch takes the tail back over unpublished SQEs. -/
theorem submitTail_inv (h : SqInv s) (hsnd : SendInv s snd) (sqcqCtrl : Except Errno Unit) :
    SqInv (submitTail s snd sqcqCtrl) := by
  have hstart := hsnd.start
  have hunpublished := hsnd.unpublished
  have hpending := h.ring.pending
  have hconsumed := h.ring.consumed_le
  cases sqcqCtrl with
  | ok u =>
      refine ⟨⟨h.ring.head_lt, h.ring.tail_lt, hpending, ?_, le_rfl, h.ring.content⟩,
        by simp [submitTail]⟩
      exact hconsumed.trans h.ring.published_le
  | error e =>
      refine ⟨⟨h.ring.head_lt, hsnd.start_lt, ?_, hconsumed, ?_, ?_⟩, by simp [submitTail]⟩
      · simp only [submitTail, List.length_take]
        omega
      · simp only [submitTail, List.length_take]
        omega
      · have hle : Ring.count s.sq.sqDepth s.sq.sqHead snd.sqTail ≤
            Ring.count s.sq.sqDepth s.sq.sqHead s.sq.sqTail := by omega
        simp only [submitTail]
        rw [← Ring.take_content _ hle, h.ring.content, List.take_drop]
        congr 2
        omega

theorem trsChanSendEx_inv (h : SqInv s) {sqe : List α} {timeout : ℤ} {inSoftirq : Bool}
    {t : ChanSqState α} (ht : trsChanSendEx s sqe timeout inSoftirq = some t) : SqInv t := by
  unfold trsChanSendEx at ht
  split at ht
  · cases ht
  · split at ht
    · obtain rfl := Option.some.inj ht
      exact h
    · obtain rfl := Option.some.inj ht
      refine ⟨h.ring.withSend _, fun next hnext => ?_⟩
      obtain rfl := Option.some.inj hnext
      exact ⟨h.ring.tail_lt, h.ring.pending, h.ring.published_le, by simp⟩

end Steps

/-! ## Runs -/

theorem trsChanTryToUpdateSqHead_inv {s : ChanSqState α} (h : SqInv s) {hw : Option SqHeadReport}
    {cqe : SqHeadReport} (hhw : ∀ r ∈ hw, WithinPublished s r)
    (hcqe : hw = none → WithinPublished s cqe ∨ Rejected s cqe) :
    SqInv (trsChanTryToUpdateSqHead s hw cqe) := by
  cases hw with
  | none => exact h.updateSqHead (hcqe rfl)
  | some r => exact h.report (hhw r rfl)

theorem trsChanSetSqHead_inv {s : ChanSqState α} (h : SqInv s) {r : SqHeadReport}
    (hr : WithinPublished s r ∨ Rejected s r) (sqcqCtrl : Except Errno Unit) :
    SqInv { s with
      sq := (trsChanSetSqHead s.sq r.sqHead sqcqCtrl).2
      consumed := s.consumed + if sqcqCtrl = .ok () then r.newly else 0 } := by
  cases sqcqCtrl with
  | ok u => exact h.updateSqHead hr
  | error e =>
      have herr : (Except.error e : Except Errno Unit) ≠ .ok () := by simp
      rw [if_neg herr]
      by_cases hlt : r.sqHead < s.sq.sqDepth
      · simp only [trsChanSetSqHead, hlt, if_true]
        exact h
      · simp only [trsChanSetSqHead, trsChanUpdateSqHead, hlt, Nat.not_lt.mp hlt, if_false, if_true]
        exact h

theorem chanSqStep_inv {s t : ChanSqState α} {op : ChanSqOp α} (h : SqInv s)
    (hok : HeadsWithin s op) (hstep : chanSqStep s op = some t) : SqInv t := by
  cases op with
  | send sqe timeout inSoftirq => exact trsChanSendEx_inv h hstep
  | room hw =>
      simp only [chanSqStep] at hstep
      split at hstep
      · next snd hsnd =>
          split at hstep
          · obtain rfl := Option.some.inj hstep
            exact fillSqeRoom_inv h (h.send snd hsnd) hok
          · cases hstep
      · cases hstep
  | wait ret hw =>
      simp only [chanSqStep] at hstep
      split at hstep
      · next snd hsnd =>
          split at hstep
          · obtain rfl := Option.some.inj hstep
            exact fillSqeWait_inv h (h.send snd hsnd) ret hok
          · cases hstep
      · cases hstep
  | copy copied sqeUpdate dst =>
      simp only [chanSqStep] at hstep
      split at hstep
      · next snd hsnd =>
          split at hstep
          · next hphase =>
              obtain rfl := Option.some.inj hstep
              exact fillSqeCopy_inv h (h.send snd hsnd) hphase _ _ copied sqeUpdate dst
          · cases hstep
      · cases hstep
  | tail sqcqCtrl =>
      simp only [chanSqStep] at hstep
      split at hstep
      · next snd hsnd =>
          split at hstep
          · obtain rfl := Option.some.inj hstep
            exact submitTail_inv h (h.send snd hsnd) sqcqCtrl
          · cases hstep
      · cases hstep
  | tryToUpdateSqHead hw cqe =>
      obtain rfl := Option.some.inj hstep
      exact trsChanTryToUpdateSqHead_inv h hok.1 hok.2
  | updateSqHead r =>
      obtain rfl := Option.some.inj hstep
      exact h.updateSqHead hok
  | setSqHead r sqcqCtrl =>
      obtain rfl := Option.some.inj hstep
      exact trsChanSetSqHead_inv h hok sqcqCtrl
  | setSqStatus status =>
      obtain rfl := Option.some.inj hstep
      exact ⟨⟨h.ring.head_lt, h.ring.tail_lt, h.ring.pending, h.ring.consumed_le,
        h.ring.published_le, h.ring.content⟩, fun snd hsnd =>
        let hsend := h.send snd hsnd
        ⟨hsend.start_lt, hsend.start, hsend.unpublished, hsend.room⟩⟩

theorem sqInv_of_reach {s : ChanSqState α} (h : (chanSqMachine α).ReachIf HeadsWithin s) :
    SqInv s := by
  apply h.invariant
  · rintro s ⟨hdepth, -, hhead, htail, hsend, hsubmitted, hpublished, hconsumed⟩
    have hcount : Ring.count s.sq.sqDepth s.sq.sqHead s.sq.sqTail = 0 := by
      rw [Ring.count_eq_zero_iff (by omega) (by omega), hhead, htail]
    refine ⟨⟨by omega, by omega, ?_, by omega, by omega, ?_⟩, by simp [hsend]⟩
    · rw [hcount, hconsumed, hsubmitted]
      rfl
    · rw [hcount, hsubmitted, List.drop_nil]
      rfl
  · intro s op t hinv hok hstep
    exact chanSqStep_inv hinv hok hstep

/-- Whatever the sends and the heads that the device reports, one slot of the
ring is free, and the slots from head to tail are the SQEs that were submitted
and not consumed, in order. -/
theorem submission_ring_keeps_unconsumed {s : ChanSqState α}
    (h : (chanSqMachine α).ReachIf HeadsWithin s) :
    (s.sq.sqTail + s.sq.sqDepth - s.sq.sqHead) % s.sq.sqDepth ≤ s.sq.sqDepth - 1 ∧
      (s.sq.sqTail + s.sq.sqDepth - s.sq.sqHead) % s.sq.sqDepth + s.consumed =
        s.submitted.length ∧
      Ring.content s.sq.sqAddr s.sq.sqDepth s.sq.sqHead
        ((s.sq.sqTail + s.sq.sqDepth - s.sq.sqHead) % s.sq.sqDepth) =
        s.submitted.drop s.consumed := by
  have hring := (sqInv_of_reach h).ring
  refine ⟨?_, hring.pending, hring.content⟩
  exact Nat.le_sub_one_of_lt (Nat.mod_lt _ (Nat.zero_lt_of_lt hring.head_lt))

/-- A ring of three slots. -/
def chanSqExample : ChanSqState ℕ where
  sq := { status := 1, sqHead := 0, sqTail := 0, sqDepth := 3, sqAddr := fun _ => 0 }
  send := none
  submitted := []
  published := 0
  consumed := 0

/-- Two SQEs are sent, the device consumes one, and a third wraps around. -/
def chanSqRun : List (ChanSqOp ℕ) :=
  [.send [5, 6] 0 false, .room none, .copy true .ok none, .room none, .copy true .ok none,
    .tail (.ok ()), .updateSqHead ⟨1, 1⟩, .send [7] 0 false, .room none, .copy true .ok none]

instance (s : ChanSqState α) (r : SqHeadReport) : Decidable (WithinPublished s r) :=
  inferInstanceAs (Decidable (_ ∧ _))

instance (s : ChanSqState α) (r : SqHeadReport) : Decidable (Rejected s r) :=
  inferInstanceAs (Decidable (_ ∧ _))

instance (s : ChanSqState α) : ∀ op, Decidable (HeadsWithin s op)
  | .room hw => inferInstanceAs (Decidable (∀ r ∈ hw, WithinPublished s r))
  | .wait _ hw => inferInstanceAs (Decidable (∀ r ∈ hw, WithinPublished s r))
  | .tryToUpdateSqHead _ _ => inferInstanceAs (Decidable (_ ∧ _))
  | .updateSqHead _ => inferInstanceAs (Decidable (_ ∨ _))
  | .setSqHead _ _ => inferInstanceAs (Decidable (_ ∨ _))
  | .send _ _ _ => isTrue trivial
  | .copy _ _ _ => isTrue trivial
  | .tail _ => isTrue trivial
  | .setSqStatus _ => isTrue trivial

theorem submission_ring_keeps_unconsumed_wrapped :
    let s := (chanSqMachine ℕ).final chanSqExample chanSqRun
    s.sq.sqTail = 0 ∧ Ring.content s.sq.sqAddr 3 1 2 = [6, 7] ∧
      Ring.content s.sq.sqAddr s.sq.sqDepth s.sq.sqHead
        ((s.sq.sqTail + s.sq.sqDepth - s.sq.sqHead) % s.sq.sqDepth) =
        s.submitted.drop s.consumed := by
  refine ⟨by decide +kernel, by decide +kernel, ?_⟩
  exact (submission_ring_keeps_unconsumed
    (Machine.ReachIf.final (s := chanSqExample)
      (.start (by simp [chanSqMachine, chanSqExample, TRS_SQCQ_DEPTH_MAX])) (by decide +kernel)
      (by decide +kernel))).2.2

end OpiaiKernel.Trs
