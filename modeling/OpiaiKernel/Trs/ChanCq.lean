import OpiaiKernel.Lib.Machine
import OpiaiKernel.Lib.Ring
import Mathlib.Algebra.Ring.Nat

/-!
# The completion queue of a channel

The device writes CQEs in order around the ring and flips their phase bit on
every lap.  The queue counts its laps in `loop`, and a CQE at the head is valid
when its phase is not the lowest bit of `loop`.  The CQEs are dispatched by a
tasklet or a work item and fetched by threads.

The functions are translated from `chan_rxtx.c`.  A dispatch or a fetch first
computes the address of the CQE at the head, then looks at its phase, then
hands it over and moves the head; the device and the other consumers run in
between.  Dispatches hold the lock of the channel unless they come from the
work item of a blocking channel, fetches hold the mutex of the queue.
-/

namespace OpiaiKernel.Trs.ChanCq

/-- The phase bit of a CQE and the rest of it. -/
structure Cqe (α : Type) where
  phase : ℕ
  report : α
  deriving DecidableEq

/-- `struct trs_chan_cq_ctx`; the memory is a function of the slot. -/
structure TrsChanCqCtx (α : Type) where
  loop : ℕ
  cqHead : ℕ
  cqeValid : Bool
  localMem : Bool
  cqDepth : ℕ
  cqAddr : ℕ → Cqe α

/-- `cq_addr`: a slot of the ring or a copy on the stack. -/
inductive CqAddr (α : Type)
  | slot (i : ℕ)
  | report (cqe : Cqe α)

inductive CqUserKind
  | dispatchNonBlock
  | dispatchBlock
  | fetch
  deriving DecidableEq

/-- Before the address is computed, before the phase is looked at, before the
CQE is handed over, and in the wait of a fetch. -/
inductive CqPhase (α : Type)
  | look
  | check (addr : CqAddr α)
  | take (addr : CqAddr α)
  | wait

/-- A run of `trs_chan_cq_dispatch` or `trs_chan_recv_ex`.  `seen` is how often
the head had moved when the address was computed. -/
structure CqUser (α : Type) where
  kind : CqUserKind
  phase : CqPhase α
  dispatchNum : ℕ
  procNum : ℕ
  cqeNum : ℕ
  recvNum : ℕ
  timeout : ℕ
  seen : ℕ

/-- The queue, its locks and its users; with the CQEs that the device wrote,
how often the head moved, and the CQEs that it was moved over. -/
structure ChanCqState (α : Type) where
  cq : TrsChanCqCtx α
  recvBlock : Bool
  lock : Bool
  work : Bool
  mutex : Bool
  users : ℕ → Option (CqUser α)
  written : List α
  moves : ℕ
  consumed : List α

def CHAN_DISPATCH_NUM : ℕ := 64

variable {α : Type}

/-! ## The functions of the queue -/

def trsCqeIsValid (cqe : Cqe α) (loop : ℕ) : Bool := cqe.phase != loop % 2

def trsChanUpdateCqHead (cq : TrsChanCqCtx α) : TrsChanCqCtx α :=
  let cqHead := (cq.cqHead + 1) % cq.cqDepth
  { cq with cqHead, loop := if cqHead = 0 then (cq.loop + 1) % 2 ^ 32 else cq.loop }

def trsChanFetchWakeup (cq : TrsChanCqCtx α) : TrsChanCqCtx α := { cq with cqeValid := true }

def cqeAt (cq : TrsChanCqCtx α) : CqAddr α → Cqe α
  | .slot i => cq.cqAddr i
  | .report cqe => cqe

/-- `trs_chan_cqe_update` rewrites the CQE where it lies. -/
def trsChanCqeUpdate (cqeUpdate : α → α) (cq : TrsChanCqCtx α) (addr : CqAddr α) :
    α × TrsChanCqCtx α :=
  let cqe := cqeAt cq addr
  let cqe := { cqe with report := cqeUpdate cqe.report }
  match addr with
  | .slot i => (cqe.report, { cq with cqAddr := Function.update cq.cqAddr i cqe })
  | .report _ => (cqe.report, cq)

/-! ## Users -/

def setUser (s : ChanCqState α) (u : ℕ) (user : Option (CqUser α)) : ChanCqState α :=
  { s with users := Function.update s.users u user }

/-- The user returns; a dispatch gives up its lock or its work item. -/
def userReturn (s : ChanCqState α) (u : ℕ) (user : CqUser α) : ChanCqState α :=
  match user.kind with
  | .dispatchNonBlock => { setUser s u none with lock := false }
  | .dispatchBlock => { setUser s u none with work := false }
  | .fetch => setUser s u none

/-- The device writes the next CQE, with the phase of its lap. -/
def hwWrite (s : ChanCqState α) (report : α) : ChanCqState α :=
  let n := s.written.length
  let cqe := { phase := (n / s.cq.cqDepth + 1) % 2, report }
  { s with
    cq := { s.cq with cqAddr := Function.update s.cq.cqAddr (n % s.cq.cqDepth) cqe }
    written := s.written ++ [report] }

def trsChanCqDispatchNonBlock (s : ChanCqState α) (u : ℕ) : ChanCqState α :=
  if s.lock = true then s
  else
    { setUser s u (some
        { kind := .dispatchNonBlock, phase := .look, dispatchNum := CHAN_DISPATCH_NUM
          procNum := 0, cqeNum := 0, recvNum := 0, timeout := 0, seen := s.moves }) with
      lock := true }

/-- A work item does not run twice at a time. -/
def trsChanCqDispatchBlock (s : ChanCqState α) (u : ℕ) : Option (ChanCqState α) :=
  if s.work = true then none
  else
    some { setUser s u (some
        { kind := .dispatchBlock, phase := .look, dispatchNum := s.cq.cqDepth + 1
          procNum := 0, cqeNum := 0, recvNum := 0, timeout := 0, seen := s.moves }) with
      work := true }

/-- `trs_chan_work`, for both kinds of channels. -/
def trsChanWork (s : ChanCqState α) (u : ℕ) : Option (ChanCqState α) :=
  if s.recvBlock = true then trsChanCqDispatchBlock s u else some (trsChanCqDispatchNonBlock s u)

def trsChanRecvEx (s : ChanCqState α) (u cqeNum timeout : ℕ) : ChanCqState α :=
  if cqeNum = 0 then s
  else
    setUser s u (some
      { kind := .fetch, phase := .look, dispatchNum := 0, procNum := 0, cqeNum, recvNum := 0
        timeout, seen := s.moves })

/-- The address of the CQE at the head.  A dispatch copies a CQE that is not in
local memory, which may fail; a fetch takes the mutex before. -/
def userLook (s : ChanCqState α) (u : ℕ) (user : CqUser α) (copied : Bool) :
    Option (ChanCqState α) :=
  let goes (addr : CqAddr α) : Option (CqUser α) :=
    some { user with phase := .check addr, seen := s.moves }
  match user.kind with
  | .fetch =>
      if s.mutex = true then none
      else some { setUser s u (goes (.slot s.cq.cqHead)) with mutex := true }
  | _ =>
      if s.cq.localMem = true then some (setUser s u (goes (.slot s.cq.cqHead)))
      else if copied = true then some (setUser s u (goes (.report (s.cq.cqAddr s.cq.cqHead))))
      else some (userReturn s u user)

/-- The phase decides.  A dispatch leaves the last CQE of its share to the work
item, a fetch waits unless it has no time. -/
def userCheck (s : ChanCqState α) (u : ℕ) (user : CqUser α) (addr : CqAddr α) : ChanCqState α :=
  match user.kind, trsCqeIsValid (cqeAt s.cq addr) s.cq.loop with
  | .fetch, true => setUser s u (some { user with phase := .take addr })
  | .fetch, false =>
      let s := { s with mutex := false }
      if user.timeout = 0 then userReturn s u user
      else setUser s u (some { user with phase := .wait })
  | _, false => userReturn s u user
  | _, true =>
      if user.procNum + 1 = user.dispatchNum then userReturn s u user
      else setUser s u (some { user with procNum := user.procNum + 1, phase := .take addr })

/-- The end of `trs_chan_fetch_wait`. -/
def trsChanFetchWait (s : ChanCqState α) (u : ℕ) (user : CqUser α) (woken : Bool) :
    Option (ChanCqState α) :=
  if woken = false then some (userReturn s u user)
  else if s.cq.cqeValid = true then
    some (setUser { s with cq := { s.cq with cqeValid := false } } u
      (some { user with phase := .look }))
  else none

/-- The head is moved over the CQE. -/
def userConsume (s : ChanCqState α) (report : α) : ChanCqState α :=
  { s with
    cq := trsChanUpdateCqHead s.cq, moves := s.moves + 1, consumed := s.consumed ++ [report] }

/-- The CQE is handed over.  `done` is `CQ_RECV_FINISH` of the callback for a
dispatch, and the success of the copy for a fetch. -/
def userTake (cqeUpdate : α → α) (s : ChanCqState α) (u : ℕ) (user : CqUser α) (addr : CqAddr α)
    (done : Bool) : ChanCqState α :=
  let cqe := trsChanCqeUpdate cqeUpdate s.cq addr
  let s := { s with cq := cqe.2 }
  match user.kind, done with
  | .fetch, true =>
      let s := { userConsume s cqe.1 with mutex := false }
      if user.recvNum + 1 < user.cqeNum then
        setUser s u (some { user with phase := .look, recvNum := user.recvNum + 1, timeout := 0 })
      else userReturn s u user
  | .fetch, false => userReturn { s with mutex := false } u user
  | _, true =>
      setUser (userConsume s cqe.1) u
        (some { user with phase := .look, recvNum := user.recvNum + 1 })
  | _, false => userReturn { s with cq := trsChanFetchWakeup s.cq } u user

/-! ## The machine -/

inductive ChanCqOp (α : Type)
  | hwWrite (report : α)
  | dispatchNonBlock (u : ℕ)
  | work (u : ℕ)
  | recv (u cqeNum timeout : ℕ)
  | look (u : ℕ) (copied : Bool)
  | check (u : ℕ)
  | take (u : ℕ) (done : Bool)
  | wait (u : ℕ) (woken : Bool)

/-- The device is never more than the depth ahead of the head. -/
def chanCqStep (cqeUpdate : α → α) (s : ChanCqState α) : ChanCqOp α → Option (ChanCqState α)
  | .hwWrite report =>
      if s.written.length < s.moves + s.cq.cqDepth then some (hwWrite s report) else none
  | .dispatchNonBlock u =>
      if (s.users u).isNone then some (trsChanCqDispatchNonBlock s u) else none
  | .work u => if (s.users u).isNone then trsChanWork s u else none
  | .recv u cqeNum timeout =>
      if (s.users u).isNone then some (trsChanRecvEx s u cqeNum timeout) else none
  | .look u copied => do
      let user ← s.users u
      match user.phase with
      | .look => userLook s u user copied
      | _ => none
  | .check u => do
      let user ← s.users u
      match user.phase with
      | .check addr => some (userCheck s u user addr)
      | _ => none
  | .take u done => do
      let user ← s.users u
      match user.phase with
      | .take addr => some (userTake cqeUpdate s u user addr done)
      | _ => none
  | .wait u woken => do
      let user ← s.users u
      match user.phase with
      | .wait => trsChanFetchWait s u user woken
      | _ => none

/-- A queue with cleared memory and no users. -/
def chanCqMachine (cqeUpdate : α → α) : Machine (ChanCqState α) (ChanCqOp α) where
  init s :=
    0 < s.cq.cqDepth ∧ s.cq.cqHead = 0 ∧ s.cq.loop = 0 ∧ (∀ i, (s.cq.cqAddr i).phase = 0) ∧
      (∀ u, s.users u = none) ∧ s.written = [] ∧ s.moves = 0 ∧ s.consumed = []
  step := chanCqStep cqeUpdate

/-! ## What the consumers see -/

/-- A report and what updates make of it. -/
def Updated (cqeUpdate : α → α) (w x : α) : Prop := ∃ k, x = cqeUpdate^[k] w

/-- The CQEs are consumed once and in order, and the CQE at the head is valid
when it is the next one that the device wrote. -/
structure CqesInOrder (cqeUpdate : α → α) (s : ChanCqState α) : Prop where
  moves_le : s.moves ≤ s.written.length
  consumed : List.Forall₂ (Updated cqeUpdate) (s.written.take s.moves) s.consumed
  valid_iff : trsCqeIsValid (s.cq.cqAddr s.cq.cqHead) s.cq.loop = true ↔
    s.moves < s.written.length
  next : ∀ w ∈ s.written[s.moves]?, Updated cqeUpdate w (s.cq.cqAddr s.cq.cqHead).report

/-- A consumer that moves the head is the only one that moved it since it
computed the address of the CQE. -/
def MovesAlone (s : ChanCqState α) : ChanCqOp α → Prop
  | .take u true => ∀ user ∈ s.users u, user.seen = s.moves
  | _ => True

instance (s : ChanCqState α) : ∀ op, Decidable (MovesAlone s op)
  | .take u true => inferInstanceAs (Decidable (∀ user ∈ s.users u, user.seen = s.moves))
  | .take _ false => isTrue trivial
  | .hwWrite _ => isTrue trivial
  | .dispatchNonBlock _ => isTrue trivial
  | .work _ => isTrue trivial
  | .recv _ _ _ => isTrue trivial
  | .look _ _ => isTrue trivial
  | .check _ => isTrue trivial
  | .wait _ _ => isTrue trivial

/-! ## The invariant -/

/-- The slots of the next `cqDepth` CQEs: those that are written hold them, with
the phase of their lap, and the others have the phase of the lap before. -/
structure CqRingInv (cqeUpdate : α → α) (cq : TrsChanCqCtx α) (written : List α) (moves : ℕ)
    (consumed : List α) : Prop where
  depth_pos : 0 < cq.cqDepth
  head : cq.cqHead = moves % cq.cqDepth
  loop : cq.loop = moves / cq.cqDepth % 2 ^ 32
  moves_le : moves ≤ written.length
  written_le : written.length ≤ moves + cq.cqDepth
  holds : ∀ j w, moves ≤ j → written[j]? = some w →
    (cq.cqAddr (j % cq.cqDepth)).phase = (j / cq.cqDepth + 1) % 2 ∧
      Updated cqeUpdate w (cq.cqAddr (j % cq.cqDepth)).report
  stale : ∀ j, written.length ≤ j → j < moves + cq.cqDepth →
    (cq.cqAddr (j % cq.cqDepth)).phase = j / cq.cqDepth % 2
  consumed : List.Forall₂ (Updated cqeUpdate) (written.take moves) consumed

/-- A copy of the next CQE. -/
def NextCqe (cqeUpdate : α → α) (written : List α) (moves : ℕ) (cqe : Cqe α) : Prop :=
  ∃ w ∈ written[moves]?, Updated cqeUpdate w cqe.report

/-- What a user knows while the head stays where it looked. -/
def PhaseInv (cqeUpdate : α → α) (cq : TrsChanCqCtx α) (written : List α) (moves : ℕ) :
    CqPhase α → Prop
  | .check (.slot i) => i = cq.cqHead
  | .check (.report cqe) =>
      NextCqe cqeUpdate written moves cqe ∨ cqe.phase = moves / cq.cqDepth % 2
  | .take (.slot i) => i = cq.cqHead ∧ moves < written.length
  | .take (.report cqe) => NextCqe cqeUpdate written moves cqe
  | _ => True

def UserInv (cqeUpdate : α → α) (cq : TrsChanCqCtx α) (written : List α) (moves : ℕ)
    (user : CqUser α) : Prop :=
  user.seen ≤ moves ∧ (user.seen = moves → PhaseInv cqeUpdate cq written moves user.phase)

structure ChanCqInv (cqeUpdate : α → α) (s : ChanCqState α) : Prop where
  ring : CqRingInv cqeUpdate s.cq s.written s.moves s.consumed
  users : ∀ u, ∀ user ∈ s.users u, UserInv cqeUpdate s.cq s.written s.moves user

theorem Updated.self (cqeUpdate : α → α) (w : α) : Updated cqeUpdate w w := ⟨0, rfl⟩

theorem Updated.update {cqeUpdate : α → α} {w x : α} (h : Updated cqeUpdate w x) :
    Updated cqeUpdate w (cqeUpdate x) := by
  obtain ⟨k, rfl⟩ := h
  exact ⟨k + 1, (Function.iterate_succ_apply' cqeUpdate k w).symm⟩

section Ring

variable {f : α → α} {cq : TrsChanCqCtx α} {written consumed : List α} {moves : ℕ}

theorem CqRingInv.loop_mod (h : CqRingInv f cq written moves consumed) :
    cq.loop % 2 = moves / cq.cqDepth % 2 := by
  rw [h.loop]
  exact Nat.mod_mod_of_dvd _ (by decide)

theorem CqRingInv.next (h : CqRingInv f cq written moves consumed) {w : α}
    (hw : written[moves]? = some w) :
    (cq.cqAddr cq.cqHead).phase = (moves / cq.cqDepth + 1) % 2 ∧
      Updated f w (cq.cqAddr cq.cqHead).report := by
  rw [h.head]
  exact h.holds moves w le_rfl hw

/-- A CQE of the lap before is not valid. -/
theorem CqRingInv.not_valid (h : CqRingInv f cq written moves consumed) {cqe : Cqe α}
    (hphase : cqe.phase = moves / cq.cqDepth % 2) : trsCqeIsValid cqe cq.loop = false := by
  simp [trsCqeIsValid, h.loop_mod, hphase]

theorem CqRingInv.valid_iff (h : CqRingInv f cq written moves consumed) :
    trsCqeIsValid (cq.cqAddr cq.cqHead) cq.loop = true ↔ moves < written.length := by
  constructor
  · intro hvalid
    by_contra hge
    have hpos := h.depth_pos
    have hstale := h.stale moves (by omega) (by omega)
    rw [← h.head] at hstale
    rw [h.not_valid hstale] at hvalid
    cases hvalid
  · intro hlt
    have hphase := (h.next (List.getElem?_eq_getElem hlt)).1
    simp only [trsCqeIsValid, hphase, h.loop_mod, bne_iff_ne]
    omega

/-- Neither an update in place nor the flag of the wait touches a phase. -/
theorem CqRingInv.congr (h : CqRingInv f cq written moves consumed) {cq' : TrsChanCqCtx α}
    (hdepth : cq'.cqDepth = cq.cqDepth) (hhead : cq'.cqHead = cq.cqHead)
    (hloop : cq'.loop = cq.loop) (hphase : ∀ i, (cq'.cqAddr i).phase = (cq.cqAddr i).phase)
    (hreport : ∀ i w, Updated f w (cq.cqAddr i).report → Updated f w (cq'.cqAddr i).report) :
    CqRingInv f cq' written moves consumed := by
  refine ⟨?_, ?_, ?_, h.moves_le, ?_, ?_, ?_, h.consumed⟩
  · rw [hdepth]
    exact h.depth_pos
  · rw [hhead, hdepth]
    exact h.head
  · rw [hloop, hdepth]
    exact h.loop
  · rw [hdepth]
    exact h.written_le
  · intro j w hj hw
    rw [hdepth, hphase]
    exact (h.holds j w hj hw).imp_right (hreport _ _)
  · intro j hj hlt
    rw [hdepth] at hlt ⊢
    rw [hphase]
    exact h.stale j hj hlt

/-- The device writes into a slot of the lap before. -/
theorem CqRingInv.write (h : CqRingInv f cq written moves consumed) (report : α)
    (hroom : written.length < moves + cq.cqDepth) :
    CqRingInv f
      { cq with
        cqAddr := Function.update cq.cqAddr (written.length % cq.cqDepth)
          { phase := (written.length / cq.cqDepth + 1) % 2, report } }
      (written ++ [report]) moves consumed := by
  have hle := h.moves_le
  have hother {j : ℕ} (hj : moves ≤ j) (hlt : j < moves + cq.cqDepth) (hne : j ≠ written.length) :
      j % cq.cqDepth ≠ written.length % cq.cqDepth := by
    rwa [Ne, Ring.mod_eq_iff_of_window hj hlt hle hroom]
  refine ⟨h.depth_pos, h.head, h.loop, ?_, ?_, ?_, ?_, ?_⟩
  · rw [List.length_append]
    omega
  · rw [List.length_append, List.length_singleton]
    exact hroom
  · intro j w hj hw
    rcases Nat.lt_or_ge j written.length with hlt | hge
    · rw [List.getElem?_append_left hlt] at hw
      simp only [Function.update_of_ne (hother hj (by omega) (by omega))]
      exact h.holds j w hj hw
    · have hlast : j = written.length ∧ report = w := by
        rw [List.getElem?_append_right hge, List.getElem?_singleton] at hw
        split at hw
        · next hzero => exact ⟨by omega, Option.some.inj hw⟩
        · cases hw
      obtain ⟨rfl, rfl⟩ := hlast
      simp only [Function.update_self]
      exact ⟨trivial, Updated.self f report⟩
  · intro j hj hlt
    rw [List.length_append, List.length_singleton] at hj
    simp only [Function.update_of_ne (hother (by omega) hlt (by omega))]
    exact h.stale j (by omega) hlt
  · rw [List.take_append_of_le_length hle]
    exact h.consumed

/-- The head moves over the next CQE; its slot waits for the CQE of the next
lap. -/
theorem CqRingInv.consume (h : CqRingInv f cq written moves consumed) {w x : α}
    (hw : written[moves]? = some w) (hx : Updated f w x) :
    CqRingInv f (trsChanUpdateCqHead cq) written (moves + 1) (consumed ++ [x]) := by
  obtain ⟨hlt, -⟩ := List.getElem?_eq_some_iff.mp hw
  have hle := h.written_le
  obtain ⟨hmod, hdiv⟩ := Ring.advance moves cq.cqDepth
  refine ⟨h.depth_pos, ?_, ?_, hlt, ?_, ?_, ?_, ?_⟩
  · simp only [trsChanUpdateCqHead, h.head, hmod]
  · simp only [trsChanUpdateCqHead, h.head, hmod, h.loop, hdiv]
    split
    · exact Nat.mod_add_mod _ _ _
    · rfl
  · simp only [trsChanUpdateCqHead]
    omega
  · intro j v hj hv
    exact h.holds j v (by omega) hv
  · intro j hj hltj
    simp only [trsChanUpdateCqHead] at hltj ⊢
    rcases Nat.lt_or_ge j (moves + cq.cqDepth) with hold | hnew
    · exact h.stale j hj hold
    · obtain rfl : j = moves + cq.cqDepth := by omega
      rw [Nat.add_mod_right, Nat.add_div_right _ h.depth_pos]
      exact (h.holds moves w le_rfl hw).1
  · rw [List.take_add_one, hw]
    exact List.rel_append h.consumed (.cons hx .nil)

end Ring

/-! ## Steps of a user -/

section Users

variable {f : α → α} {s : ChanCqState α} {u : ℕ} {user : CqUser α} {addr : CqAddr α}

theorem ChanCqInv.setUser (h : ChanCqInv f s) {next : Option (CqUser α)}
    (hnext : ∀ v ∈ next, UserInv f s.cq s.written s.moves v) : ChanCqInv f (setUser s u next) := by
  refine ⟨h.ring, fun x v hv => ?_⟩
  rcases eq_or_ne x u with rfl | hne
  · simp only [ChanCq.setUser, Function.update_self] at hv
    exact hnext v hv
  · simp only [ChanCq.setUser, Function.update_of_ne hne] at hv
    exact h.users x v hv

theorem ChanCqInv.userReturn (h : ChanCqInv f s) : ChanCqInv f (userReturn s u user) := by
  have hnone : ChanCqInv f (ChanCq.setUser s u none) := h.setUser (by simp)
  cases hkind : user.kind with
  | dispatchNonBlock =>
      simp only [ChanCq.userReturn, hkind]
      exact ⟨hnone.ring, hnone.users⟩
  | dispatchBlock =>
      simp only [ChanCq.userReturn, hkind]
      exact ⟨hnone.ring, hnone.users⟩
  | fetch =>
      simp only [ChanCq.userReturn, hkind]
      exact hnone

theorem ChanCqInv.locks (h : ChanCqInv f s) (lock work : Bool) :
    ChanCqInv f { s with lock, work } :=
  ⟨h.ring, h.users⟩

theorem ChanCqInv.unlock (h : ChanCqInv f s) : ChanCqInv f { s with mutex := false } :=
  ⟨h.ring, h.users⟩

/-- The wake-up flag is not part of the ring. -/
theorem ChanCqInv.flag (h : ChanCqInv f s) (cqeValid : Bool) :
    ChanCqInv f { s with cq := { s.cq with cqeValid } } := by
  refine ⟨h.ring.congr rfl rfl rfl (fun _ => rfl) (fun _ _ hw => hw), fun x v hv => ?_⟩
  refine (h.users x v hv).imp_right fun hphase heq => ?_
  have hphase := hphase heq
  cases hp : v.phase with
  | look => trivial
  | wait => trivial
  | check a =>
      rw [hp] at hphase
      cases a <;> exact hphase
  | take a =>
      rw [hp] at hphase
      cases a <;> exact hphase

/-- What holds of the users carries over to a queue with the same head and
depth, in which more may have been written. -/
theorem UserInv.congr {cq cq' : TrsChanCqCtx α} {written written' : List α} {moves : ℕ}
    (h : UserInv f cq written moves user) (hhead : cq'.cqHead = cq.cqHead)
    (hdepth : cq'.cqDepth = cq.cqDepth)
    (hwritten : ∀ w, written[moves]? = some w → written'[moves]? = some w) :
    UserInv f cq' written' moves user := by
  refine h.imp_right fun hphase heq => ?_
  have hphase := hphase heq
  have hlt (hlt : moves < written.length) : moves < written'.length :=
    (List.getElem?_eq_some_iff.mp (hwritten _ (List.getElem?_eq_getElem hlt))).1
  have hnext {cqe : Cqe α} (hcqe : NextCqe f written moves cqe) : NextCqe f written' moves cqe := by
    obtain ⟨w, hw, hupdated⟩ := hcqe
    exact ⟨w, hwritten w hw, hupdated⟩
  match hp : user.phase, hphase with
  | .look, _ => trivial
  | .wait, _ => trivial
  | .check (.slot i), hi => exact hi.trans hhead.symm
  | .check (.report cqe), hcqe =>
      rw [PhaseInv, hdepth]
      exact hcqe.imp_left hnext
  | .take (.slot i), hi => exact ⟨hi.1.trans hhead.symm, hlt hi.2⟩
  | .take (.report cqe), hcqe => exact hnext hcqe

theorem hwWrite_inv (h : ChanCqInv f s) (hroom : s.written.length < s.moves + s.cq.cqDepth)
    (report : α) : ChanCqInv f (hwWrite s report) := by
  refine ⟨h.ring.write report hroom, fun x v hv => ?_⟩
  refine (h.users x v hv).congr rfl rfl fun w hw => ?_
  obtain ⟨hlt, -⟩ := List.getElem?_eq_some_iff.mp hw
  exact (List.getElem?_append_left hlt).trans hw

/-- An update in place leaves every slot a copy of what it was. -/
theorem trsChanCqeUpdate_inv (h : ChanCqInv f s) :
    ChanCqInv f { s with cq := (trsChanCqeUpdate f s.cq addr).2 } := by
  cases addr with
  | report cqe => exact h
  | slot i =>
      refine ⟨h.ring.congr rfl rfl rfl (fun j => ?_) (fun j w hw => ?_), fun x v hv =>
        (h.users x v hv).congr rfl rfl fun w hw => hw⟩
      · rcases eq_or_ne j i with rfl | hne
        · simp [trsChanCqeUpdate, cqeAt]
        · simp [trsChanCqeUpdate, Function.update_of_ne hne]
      · rcases eq_or_ne j i with rfl | hne
        · simpa [trsChanCqeUpdate, cqeAt] using hw.update
        · simpa [trsChanCqeUpdate, Function.update_of_ne hne] using hw

/-- A user that takes the next CQE hands over what the device wrote. -/
theorem next_of_take (h : ChanCqInv f s)
    (hphase : PhaseInv f s.cq s.written s.moves (.take addr)) :
    ∃ w, s.written[s.moves]? = some w ∧ Updated f w (trsChanCqeUpdate f s.cq addr).1 := by
  cases addr with
  | report cqe =>
      obtain ⟨w, hw, hupdated⟩ := hphase
      exact ⟨w, hw, hupdated.update⟩
  | slot i =>
      obtain ⟨rfl, hlt⟩ := hphase
      refine ⟨_, List.getElem?_eq_getElem hlt, ?_⟩
      exact (h.ring.next (List.getElem?_eq_getElem hlt)).2.update

/-- The other users looked before the head moved. -/
theorem userConsume_inv (h : ChanCqInv f s) {w x : α} (hw : s.written[s.moves]? = some w)
    (hx : Updated f w x) : ChanCqInv f (userConsume s x) := by
  refine ⟨h.ring.consume hw hx, fun y v hv => ?_⟩
  have hseen := (h.users y v hv).1
  exact ⟨Nat.le_succ_of_le hseen, fun heq => absurd (heq ▸ hseen) (Nat.not_succ_le_self _)⟩

theorem userLook_inv (h : ChanCqInv f s) {copied : Bool} {t : ChanCqState α}
    (ht : userLook s u user copied = some t) : ChanCqInv f t := by
  have hslot : ChanCqInv f (setUser s u (some
      { user with phase := .check (.slot s.cq.cqHead), seen := s.moves })) := by
    apply h.setUser
    intro v hv
    obtain rfl := Option.some.inj hv
    exact ⟨le_rfl, fun _ => rfl⟩
  have hreport : ChanCqInv f (setUser s u (some
      { user with phase := .check (.report (s.cq.cqAddr s.cq.cqHead)), seen := s.moves })) := by
    apply h.setUser
    intro v hv
    obtain rfl := Option.some.inj hv
    refine ⟨le_rfl, fun _ => ?_⟩
    rcases Nat.lt_or_ge s.moves s.written.length with hlt | hge
    · have hw := List.getElem?_eq_getElem hlt
      exact Or.inl ⟨_, hw, (h.ring.next hw).2⟩
    · have hpos := h.ring.depth_pos
      have hstale := h.ring.stale s.moves hge (by omega)
      rw [← h.ring.head] at hstale
      exact Or.inr hstale
  unfold userLook at ht
  split at ht
  · split at ht
    · cases ht
    · obtain rfl := Option.some.inj ht
      exact ⟨hslot.ring, hslot.users⟩
  · split at ht
    · obtain rfl := Option.some.inj ht
      exact hslot
    · split at ht
      · obtain rfl := Option.some.inj ht
        exact hreport
      · obtain rfl := Option.some.inj ht
        exact h.userReturn

/-- A valid CQE is the next one, if the head did not move since its address was
computed. -/
theorem take_of_check (h : ChanCqInv f s)
    (hphase : PhaseInv f s.cq s.written s.moves (.check addr))
    (hvalid : trsCqeIsValid (cqeAt s.cq addr) s.cq.loop = true) :
    PhaseInv f s.cq s.written s.moves (.take addr) := by
  cases addr with
  | report cqe =>
      refine Or.resolve_right hphase fun hstale => ?_
      rw [cqeAt, h.ring.not_valid hstale] at hvalid
      cases hvalid
  | slot i =>
      obtain rfl : i = s.cq.cqHead := hphase
      exact ⟨rfl, h.ring.valid_iff.mp hvalid⟩

theorem userCheck_inv (h : ChanCqInv f s) (huser : UserInv f s.cq s.written s.moves user)
    (hphase : user.phase = .check addr) : ChanCqInv f (userCheck s u user addr) := by
  have htake (procNum : ℕ) (hvalid : trsCqeIsValid (cqeAt s.cq addr) s.cq.loop = true) :
      ChanCqInv f (setUser s u (some { user with procNum, phase := .take addr })) := by
    apply h.setUser
    intro v hv
    obtain rfl := Option.some.inj hv
    exact ⟨huser.1, fun heq => take_of_check h (hphase ▸ huser.2 heq) hvalid⟩
  have hwait : ChanCqInv f (setUser { s with mutex := false } u
      (some { user with phase := .wait })) := by
    apply h.unlock.setUser
    intro v hv
    obtain rfl := Option.some.inj hv
    exact ⟨huser.1, fun _ => trivial⟩
  unfold userCheck
  split
  · next hvalid => exact htake user.procNum hvalid
  · split
    · exact h.unlock.userReturn
    · exact hwait
  · exact h.userReturn
  · next hvalid _ =>
      split
      · exact h.userReturn
      · exact htake _ hvalid

theorem trsChanFetchWait_inv (h : ChanCqInv f s) (huser : UserInv f s.cq s.written s.moves user)
    {woken : Bool} {t : ChanCqState α} (ht : trsChanFetchWait s u user woken = some t) :
    ChanCqInv f t := by
  unfold trsChanFetchWait at ht
  split at ht
  · obtain rfl := Option.some.inj ht
    exact h.userReturn
  · split at ht
    · obtain rfl := Option.some.inj ht
      apply (h.flag false).setUser
      intro v hv
      obtain rfl := Option.some.inj hv
      exact ⟨huser.1, fun _ => trivial⟩
    · cases ht

theorem userTake_inv (h : ChanCqInv f s) (huser : UserInv f s.cq s.written s.moves user)
    (hphase : user.phase = .take addr) {done : Bool}
    (halone : done = true → user.seen = s.moves) :
    ChanCqInv f (userTake f s u user addr done) := by
  have hupdate : ChanCqInv f { s with cq := (trsChanCqeUpdate f s.cq addr).2 } :=
    trsChanCqeUpdate_inv h
  have hconsume (hdone : done = true) :
      ChanCqInv f (userConsume { s with cq := (trsChanCqeUpdate f s.cq addr).2 }
        (trsChanCqeUpdate f s.cq addr).1) := by
    obtain ⟨w, hw, hx⟩ := next_of_take h (hphase ▸ huser.2 (halone hdone))
    exact userConsume_inv hupdate hw hx
  unfold userTake
  split
  · split
    · apply (hconsume rfl).unlock.setUser
      intro v hv
      obtain rfl := Option.some.inj hv
      exact ⟨Nat.le_succ_of_le huser.1, fun _ => trivial⟩
    · exact (hconsume rfl).unlock.userReturn
  · exact hupdate.unlock.userReturn
  · apply (hconsume rfl).setUser
    intro v hv
    obtain rfl := Option.some.inj hv
    exact ⟨Nat.le_succ_of_le huser.1, fun _ => trivial⟩
  · exact (hupdate.flag true).userReturn

/-- A user starts without having looked. -/
theorem userStart_inv (h : ChanCqInv f s) (hseen : user.seen = s.moves)
    (hphase : user.phase = .look) : ChanCqInv f (setUser s u (some user)) := by
  apply h.setUser
  intro v hv
  obtain rfl := Option.some.inj hv
  exact ⟨hseen.le, fun _ => hphase ▸ trivial⟩

theorem trsChanCqDispatchNonBlock_inv (h : ChanCqInv f s) :
    ChanCqInv f (trsChanCqDispatchNonBlock s u) := by
  unfold trsChanCqDispatchNonBlock
  split
  · exact h
  · exact (userStart_inv h rfl rfl).locks true s.work

theorem trsChanWork_inv (h : ChanCqInv f s) {t : ChanCqState α} (ht : trsChanWork s u = some t) :
    ChanCqInv f t := by
  unfold trsChanWork at ht
  split at ht
  · unfold trsChanCqDispatchBlock at ht
    split at ht
    · cases ht
    · obtain rfl := Option.some.inj ht
      exact (userStart_inv h rfl rfl).locks s.lock true
  · obtain rfl := Option.some.inj ht
    exact trsChanCqDispatchNonBlock_inv h

theorem chanCqStep_inv {op : ChanCqOp α} {t : ChanCqState α} (h : ChanCqInv f s)
    (halone : MovesAlone s op) (hstep : chanCqStep f s op = some t) : ChanCqInv f t := by
  cases op with
  | hwWrite report =>
      simp only [chanCqStep, Option.ite_none_right_eq_some, Option.some.injEq] at hstep
      obtain ⟨hroom, rfl⟩ := hstep
      exact hwWrite_inv h hroom report
  | dispatchNonBlock u =>
      simp only [chanCqStep, Option.ite_none_right_eq_some, Option.some.injEq] at hstep
      obtain ⟨-, rfl⟩ := hstep
      exact trsChanCqDispatchNonBlock_inv h
  | work u =>
      simp only [chanCqStep, Option.ite_none_right_eq_some] at hstep
      exact trsChanWork_inv h hstep.2
  | recv u cqeNum timeout =>
      simp only [chanCqStep, Option.ite_none_right_eq_some, Option.some.injEq] at hstep
      obtain ⟨-, rfl⟩ := hstep
      unfold trsChanRecvEx
      split
      · exact h
      · exact userStart_inv h rfl rfl
  | look u copied =>
      obtain ⟨user, -, hstep⟩ := Option.bind_eq_some_iff.mp hstep
      split at hstep
      · exact userLook_inv h hstep
      · cases hstep
  | check u =>
      obtain ⟨user, huser, hstep⟩ := Option.bind_eq_some_iff.mp hstep
      split at hstep
      · next addr hphase =>
          obtain rfl := Option.some.inj hstep
          exact userCheck_inv h (h.users u user huser) hphase
      · cases hstep
  | take u done =>
      obtain ⟨user, huser, hstep⟩ := Option.bind_eq_some_iff.mp hstep
      split at hstep
      · next addr hphase =>
          obtain rfl := Option.some.inj hstep
          refine userTake_inv h (h.users u user huser) hphase ?_
          rintro rfl
          exact halone user huser
      · cases hstep
  | wait u woken =>
      obtain ⟨user, huser, hstep⟩ := Option.bind_eq_some_iff.mp hstep
      split at hstep
      · exact trsChanFetchWait_inv h (h.users u user huser) hstep
      · cases hstep

end Users

/-! ## Runs -/

theorem chanCqInv_of_reach {f : α → α} {s : ChanCqState α}
    (h : (chanCqMachine f).ReachIf MovesAlone s) : ChanCqInv f s := by
  apply h.invariant
  · rintro s ⟨hdepth, hhead, hloop, hphase, husers, hwritten, hmoves, hconsumed⟩
    refine ⟨⟨hdepth, ?_, ?_, ?_, ?_, ?_, ?_, ?_⟩, ?_⟩
    · rw [hhead, hmoves, Nat.zero_mod]
    · rw [hloop, hmoves, Nat.zero_div, Nat.zero_mod]
    · rw [hmoves]
      exact Nat.zero_le _
    · rw [hwritten]
      exact Nat.zero_le _
    · simp [hwritten]
    · intro j _ hlt
      rw [hphase, Nat.div_eq_of_lt (by omega), Nat.zero_mod]
    · rw [hwritten, hconsumed, List.take_nil]
      exact .nil
    · simp [husers]
  · intro s op t hinv halone hstep
    exact chanCqStep_inv hinv halone hstep

/-- As long as no consumer moves the head between another's look at it and its
move, every CQE is seen valid and consumed once and in order. -/
theorem cqes_in_order_of_moves_alone {f : α → α} {s : ChanCqState α}
    (h : (chanCqMachine f).ReachIf MovesAlone s) : CqesInOrder f s := by
  have hring := (chanCqInv_of_reach h).ring
  exact ⟨hring.moves_le, hring.consumed, hring.valid_iff, fun w hw => (hring.next hw).2⟩

/-- A queue of four CQEs in local memory. -/
def chanCqExample : ChanCqState ℕ where
  cq :=
    { loop := 0, cqHead := 0, cqeValid := false, localMem := true, cqDepth := 4
      cqAddr := fun _ => { phase := 0, report := 0 } }
  recvBlock := false
  lock := false
  work := false
  mutex := false
  users := fun _ => none
  written := []
  moves := 0
  consumed := []

/-- A fetch after a dispatch. -/
def fetchAfterDispatch : List (ChanCqOp ℕ) :=
  [.hwWrite 5, .hwWrite 6, .dispatchNonBlock 0, .look 0 true, .check 0, .take 0 true, .recv 1 1 0,
    .look 1 true, .check 1, .take 1 true]

theorem cqes_in_order_of_moves_alone_fetched :
    let s := (chanCqMachine (id : ℕ → ℕ)).final chanCqExample fetchAfterDispatch
    s.consumed = [5, 6] ∧ CqesInOrder id s :=
  ⟨by decide +kernel, cqes_in_order_of_moves_alone
    (Machine.ReachIf.final (s := chanCqExample) (.start (by simp [chanCqMachine, chanCqExample]))
      (by decide +kernel) (by decide +kernel))⟩

/-- A dispatch and a fetch that both look at the first CQE. -/
def fetchDuringDispatch : List (ChanCqOp ℕ) :=
  [.hwWrite 5, .hwWrite 6, .dispatchNonBlock 0, .recv 1 1 0, .look 0 true, .look 1 true, .check 0,
    .check 1, .take 0 true, .take 1 true]

theorem cqe_consumed_twice :
    let s := (chanCqMachine (id : ℕ → ℕ)).final chanCqExample fetchDuringDispatch
    (chanCqMachine (id : ℕ → ℕ)).Reach s ∧ s.written = [5, 6] ∧ s.consumed = [5, 5] ∧
      ¬ CqesInOrder id s := by
  refine ⟨?_, by decide +kernel, by decide +kernel, fun h => ?_⟩
  · exact Machine.Reach.final (s := chanCqExample)
      (.start (by simp [chanCqMachine, chanCqExample])) (by decide +kernel)
  · have hconsumed := h.consumed
    have hrun : ((chanCqMachine (id : ℕ → ℕ)).final chanCqExample fetchDuringDispatch).written.take
        ((chanCqMachine (id : ℕ → ℕ)).final chanCqExample fetchDuringDispatch).moves = [5, 6] ∧
        ((chanCqMachine (id : ℕ → ℕ)).final chanCqExample fetchDuringDispatch).consumed =
          [5, 5] := by
      decide +kernel
    rw [hrun.1, hrun.2] at hconsumed
    cases hconsumed with
    | cons _ hrest =>
        cases hrest with
        | cons hsecond _ =>
            obtain ⟨k, hk⟩ := hsecond
            rw [Function.iterate_id] at hk
            cases hk

end OpiaiKernel.Trs.ChanCq
