import Mathlib.Data.Finset.Card
import OpiaiKernel.Lib.Machine
import OpiaiKernel.Trs.LogicCqReceive

/-!
# Waiting for completions

A receiver that finds nothing in a logic CQ waits for a wakeup; an enqueuer
that has published an entry stores the number of wakeups that it owes and wakes
waiters.  The accesses of `trs_logic_cq_recv`, `trs_logic_cq_wait_event` and
`trs_logic_cq_wakeup` to the shared counters and to the wait queue are single
steps of one machine, in which any number of receivers and enqueuers interleave.

A receiver is named by its position in the list of receivers.  Timeouts and
signals may end any wait.
-/

namespace OpiaiKernel.Trs

variable {α : Type} [LogicCqe α]

/-- Where a receiver is in `trs_logic_cq_recv`. -/
inductive WaitPhase
  /-- about to look at the queue -/
  | checking
  /-- has found nothing -/
  | missed
  /-- has incremented `wait_thread_num` -/
  | counted
  /-- is in the wait queue -/
  | joined
  /-- has read a positive `wakeup_num` -/
  | taking
  | asleep
  /-- has taken a wakeup, or was woken -/
  | awake
  /-- its sleep has ended by a timeout or a signal -/
  | expired
  /-- has left the wait queue, for good or to look again -/
  | finished (leave : Bool)
  | out
  deriving DecidableEq

/-- A receiver; `woken` tells that a wakeup has taken it out of the wait queue. -/
structure Receiver where
  para : ReportRecvInfo
  phase : WaitPhase
  woken : Bool
  deriving DecidableEq

/-- Where an enqueuer is in `trs_logic_cq_wakeup`. -/
inductive EnqPhase
  | published
  | numRead (wakeupNum : ℤ)
  | numSet (wakeupNum : ℤ)
  | waking (wakeupNum : ℤ)
  | done
  deriving DecidableEq

structure CqWait (α : Type) where
  cq : LogicCq α
  wakeupNum : ℤ
  waitThreadNum : ℤ
  waitQueue : List ℕ
  receivers : List Receiver
  enques : List EnqPhase

inductive WaitStep (α : Type)
  | recv (para : ReportRecvInfo)
  | check (i uncopied : ℕ)
  | count (i : ℕ)
  | join (i : ℕ)
  | readNum (i : ℕ)
  | takeNum (i : ℕ)
  | expire (i : ℕ)
  | finish (i : ℕ) (leave : Bool)
  | finishExpired (i : ℕ)
  | uncount (i : ℕ) (leave : Bool)
  | enque (cqe : α)
  | readThreadNum (e : ℕ)
  | setNum (e : ℕ)
  | active (e : ℕ)
  | wake (e : ℕ)

namespace CqWait

/-- `f` at the receiver `i`, which must be in phase `p`. -/
def withRecv (s : CqWait α) (i : ℕ) (p : WaitPhase) (f : Receiver → CqWait α) :
    Option (CqWait α) :=
  match s.receivers[i]? with
  | none => none
  | some r => if r.phase = p then some (f r) else none

def setRecv (s : CqWait α) (i : ℕ) (r : Receiver) : CqWait α :=
  { s with receivers := s.receivers.set i r }

def setEnq (s : CqWait α) (e : ℕ) (p : EnqPhase) : CqWait α :=
  { s with enques := s.enques.set e p }

/-- The loop body of `trs_logic_cq_recv` up to its wait: the next phase and the queue. -/
def recvCheck (cq : LogicCq α) (para : ReportRecvInfo) (uncopied : ℕ) : WaitPhase × LogicCq α :=
  match cq.copyReport para uncopied with
  | (.ok _, cq) => (.out, cq)
  | (.error (.errno .EAGAIN), cq) => (if para.timeout = 0 then .out else .missed, cq)
  | (.error (.errno _), cq) => (.out, cq)
  -- the number of bytes left is positive, and the loop goes on
  | (.error (.uncopied _), cq) => (.checking, cq)

/-- The waiters that `wake_up_nr` wakes: those at the front whose wait has not
already ended. -/
def wokenBy (s : CqWait α) (n : ℤ) : List ℕ :=
  (s.waitQueue.filter fun i =>
    !(s.receivers[i]?.any fun r => r.phase = .expired)).take n.toNat

end CqWait

def Receiver.wake (r : Receiver) : Receiver :=
  { r with phase := if r.phase = .asleep then .awake else r.phase, woken := true }

namespace CqWait

def wakeUpNr (s : CqWait α) (n : ℤ) : CqWait α :=
  { s with
    waitQueue := s.waitQueue.filter (· ∉ s.wokenBy n)
    receivers := s.receivers.mapIdx fun i r => if i ∈ s.wokenBy n then r.wake else r }

def step (s : CqWait α) : WaitStep α → Option (CqWait α)
  | .recv para =>
      if (para.timeout < 0 ∧ para.timeout ≠ -1) ∨ para.cqeNum = 0 then some s
      else some { s with receivers := s.receivers ++ [⟨para, .checking, false⟩] }
  | .check i uncopied => s.withRecv i .checking fun r =>
      let (phase, cq) := recvCheck s.cq r.para uncopied
      { s.setRecv i { r with phase := phase } with cq := cq }
  | .count i => s.withRecv i .missed fun r =>
      { s.setRecv i { r with phase := .counted } with waitThreadNum := s.waitThreadNum + 1 }
  | .join i => s.withRecv i .counted fun r =>
      { s.setRecv i { r with phase := .joined, woken := false } with
        waitQueue := s.waitQueue ++ [i] }
  | .readNum i => s.withRecv i .joined fun r =>
      s.setRecv i { r with
        phase := if s.wakeupNum > 0 then .taking else if r.woken then .awake else .asleep }
  | .takeNum i => s.withRecv i .taking fun r =>
      { s.setRecv i { r with phase := .awake } with wakeupNum := s.wakeupNum - 1 }
  | .expire i => s.withRecv i .asleep fun r => s.setRecv i { r with phase := .expired }
  | .finish i leave => s.withRecv i .awake fun r =>
      { s.setRecv i { r with phase := .finished leave } with waitQueue := s.waitQueue.erase i }
  | .finishExpired i => s.withRecv i .expired fun r =>
      { s.setRecv i { r with phase := .finished true } with waitQueue := s.waitQueue.erase i }
  | .uncount i leave => s.withRecv i (.finished leave) fun r =>
      { s.setRecv i { r with phase := if leave then .out else .checking } with
        waitThreadNum := s.waitThreadNum - 1 }
  | .enque cqe =>
      match s.cq.enque cqe with
      | (.ok (), cq) => some { s with cq := cq, enques := s.enques ++ [.published] }
      | (.error _, cq) => some { s with cq := cq }
  | .readThreadNum e =>
      match s.enques[e]? with
      | some .published =>
          some (s.setEnq e (.numRead (if s.waitThreadNum > 0 then s.waitThreadNum else 1)))
      | _ => none
  | .setNum e =>
      match s.enques[e]? with
      | some (.numRead n) => some { s.setEnq e (.numSet n) with wakeupNum := n }
      | _ => none
  | .active e =>
      match s.enques[e]? with
      | some (.numSet n) => some (s.setEnq e (if s.waitQueue = [] then .done else .waking n))
      | _ => none
  | .wake e =>
      match s.enques[e]? with
      | some (.waking n) => some ((s.wakeUpNr n).setEnq e .done)
      | _ => none

/-- A queue from its allocation on. -/
def machine (α : Type) [LogicCqe α] : Machine (CqWait α) (WaitStep α) where
  init s := s.cq.valid = true ∧ s.cq.head = 0 ∧ s.cq.tail = 0 ∧ 0 < s.cq.cqDepth ∧
    s.cq.cqDepth ≤ 65536 ∧ s.wakeupNum = 0 ∧ s.waitThreadNum = 0 ∧ s.waitQueue = [] ∧
    s.receivers = [] ∧ s.enques = []
  step := step

/-! ## Lost wakeups -/

/-- The receive of `para` would report an entry of the queue. -/
def WouldReport (cq : LogicCq α) (para : ReportRecvInfo) : Prop :=
  ∃ cqes, (cq.copyReport para 0).1 = .ok cqes

instance (cq : LogicCq α) (para : ReportRecvInfo) : Decidable (WouldReport cq para) :=
  match h : (cq.copyReport para 0).1 with
  | .ok cqes => isTrue ⟨cqes, h⟩
  | .error _ => isFalse fun ⟨_, h'⟩ => by simp [h] at h'

/-- No enqueue is between its publication and the end of its wakeup. -/
def Quiet (s : CqWait α) : Prop := ∀ p ∈ s.enques, p = .done

/-- No receiver is running. -/
def NoneRunning (s : CqWait α) : Prop :=
  ∀ r ∈ s.receivers, r.phase = .asleep ∨ r.phase = .out

def NoLostWakeup (s : CqWait α) : Prop :=
  s.Quiet → s.NoneRunning → ∀ r ∈ s.receivers, r.phase = .asleep → ¬ WouldReport s.cq r.para

instance (s : CqWait α) : Decidable s.Quiet := inferInstanceAs (Decidable (∀ p ∈ s.enques, _))

instance (s : CqWait α) : Decidable s.NoneRunning :=
  inferInstanceAs (Decidable (∀ r ∈ s.receivers, _ ∨ _))

instance (s : CqWait α) : Decidable s.NoLostWakeup :=
  inferInstanceAs (Decidable (_ → _ → ∀ r ∈ s.receivers, _))

/-! ## Which wakeups are owed -/

/-- The receiver has missed the queue and will still read `wakeup_num`, unless
it has been woken. -/
def InWindow (r : Receiver) : Prop :=
  r.phase = .missed ∨ r.phase = .counted ∨ (r.phase = .joined ∧ r.woken = false)

instance (r : Receiver) : Decidable (InWindow r) := inferInstanceAs (Decidable (_ ∨ _))

/-- The receivers that satisfy `P`. -/
def those (rs : List Receiver) (P : Receiver → Prop) [DecidablePred P] : Finset ℕ :=
  (Finset.range rs.length).filter fun i => ∃ r ∈ rs[i]?, P r

/-- The receivers that need a token: in the window, with an entry to report. -/
def dueWindow (s : CqWait α) : Finset ℕ :=
  those s.receivers fun r => InWindow r ∧ WouldReport s.cq r.para

/-- The receivers that have seen a token and not yet taken it. -/
def takers (s : CqWait α) : Finset ℕ := those s.receivers fun r => r.phase = .taking

/-- The sleepers with an entry to report. -/
def dueAsleep (s : CqWait α) : Finset ℕ :=
  those s.receivers fun r => r.phase = .asleep ∧ WouldReport s.cq r.para

/-- No other enqueue than `e` is in flight. -/
def QuietBut (s : CqWait α) (e : ℕ) : Prop := ∀ p ∈ s.enques.set e .done, p = .done

/-- The wakeup of the enqueue `e`, the last one in flight, reaches the sleepers
with an entry to report, and its tokens suffice for the others. -/
def WakeCovered (s : CqWait α) (e : ℕ) : EnqPhase → Prop
  | .waking n => s.QuietBut e → (∀ i ∈ s.dueAsleep, i ∈ s.wokenBy n) ∧
      (s.dueWindow \ (s.wokenBy n).toFinset).card + s.takers.card ≤ s.wakeupNum
  | _ => True

/-- The last enqueue in flight ends only when its wakeup reaches the sleepers
with an entry to report and the tokens suffice for the others; and then a
receiver without an entry takes no token that one of them needs. -/
def Covered (s : CqWait α) : WaitStep α → Prop
  | .active e => s.QuietBut e → s.waitQueue = [] →
      s.dueWindow.card + s.takers.card ≤ s.wakeupNum
  | .wake e => ∀ p ∈ s.enques[e]?, s.WakeCovered e p
  | .readNum i => s.Quiet → s.wakeupNum > 0 → i ∉ s.dueWindow →
      s.dueWindow.card + s.takers.card + 1 ≤ s.wakeupNum
  | _ => True

instance (s : CqWait α) (e : ℕ) : Decidable (s.QuietBut e) :=
  inferInstanceAs (Decidable (∀ p ∈ s.enques.set e .done, _))

instance (s : CqWait α) (e : ℕ) : ∀ p, Decidable (s.WakeCovered e p)
  | .waking _ => inferInstanceAs (Decidable (_ → _ ∧ _))
  | .published => isTrue trivial
  | .numRead _ => isTrue trivial
  | .numSet _ => isTrue trivial
  | .done => isTrue trivial

instance (s : CqWait α) (a : WaitStep α) : Decidable (Covered s a) := by
  cases a <;> unfold Covered <;> infer_instance

end CqWait

end OpiaiKernel.Trs
