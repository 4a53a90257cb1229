import OpiaiKernel.Trs.ChanCq
import OpiaiKernel.Trs.LogicCq

/-!
# The completion queue of a software channel

The CQEs of a software channel are enqueued to a logic CQ by the receive
callback of the channel.  The callback tells the dispatch to leave the CQE where
it is, so that the next dispatch finds it again.

The functions are translated from `trs_sw_sqcq.c`, over the channel's queue and
the logic CQ.  The channel does not block its receives, and nobody fetches from
it.  A receive from the logic CQ is one step.
-/

namespace OpiaiKernel.Trs.SwCq

open ChanCq

/-- `struct trs_ctrl_cqe` without its phase. -/
structure TrsCtrlCqe where
  sqId : BitVec 11
  matchFlag : BitVec 1
  sqHead : UInt16
  streamId : UInt16
  taskId : UInt16
  errCode : UInt32
  deriving DecidableEq

inductive CqRecvResult
  | finish
  | continue
  deriving DecidableEq

/-- The queue of the channel, whether the instance is there, and the logic CQ;
with the numbers of the CQEs that were enqueued and that were dropped, in the
order in which the device wrote them. -/
structure SwCqState where
  chan : ChanCqState TrsCtrlCqe
  inst : Bool
  logicCq : LogicCq LogicCqeV2
  enque : List ℕ
  fullDrop : List ℕ

/-- The other fields keep what is on the stack. -/
def trsCtrlCqeToLogicCqe (stack : LogicCqeV2) (ctrlCqe : TrsCtrlCqe) : LogicCqeV2 :=
  { stack with
    matchFlag := ctrlCqe.matchFlag
    streamId := ctrlCqe.streamId
    taskId := ctrlCqe.taskId
    sqId := ctrlCqe.sqId.toNat.toUInt16
    sqHead := ctrlCqe.sqHead
    errorCode := ctrlCqe.errCode }

/-- The result of the enqueue is not looked at; `n` is the number of the CQE. -/
def trsSwCqRecvProc (s : SwCqState) (n : ℕ) (cqe : TrsCtrlCqe) (stack : LogicCqeV2) : SwCqState :=
  match s.logicCq.enque (trsCtrlCqeToLogicCqe stack cqe) with
  | (.ok _, cq) => { s with logicCq := cq, enque := n :: s.enque }
  | (.error e, cq) =>
      { s with logicCq := cq, fullDrop := if e = .EAGAIN then n :: s.fullDrop else s.fullDrop }

def trsSwCqRecv (s : SwCqState) (n : ℕ) (cqe : TrsCtrlCqe) (stack : LogicCqeV2) :
    SwCqState × CqRecvResult :=
  if s.inst = false then (s, .finish) else (trsSwCqRecvProc s n cqe stack, .continue)

inductive SwCqOp
  | hwWrite (cqe : TrsCtrlCqe)
  | dispatchNonBlock (u : ℕ)
  | work (u : ℕ)
  | look (u : ℕ) (copied : Bool)
  | check (u : ℕ)
  | take (u : ℕ) (stack : LogicCqeV2)
  | recv (para : ReportRecvInfo) (uncopied : ℕ)
  | inst (present : Bool)
  | valid (valid : Bool)

/-- A step of the channel alone. -/
def chanOp (s : SwCqState) (op : ChanCqOp TrsCtrlCqe) : Option SwCqState :=
  (chanCqStep id s.chan op).map fun chan => { s with chan := chan }

def swCqStep (s : SwCqState) : SwCqOp → Option SwCqState
  | .hwWrite cqe => chanOp s (.hwWrite cqe)
  | .dispatchNonBlock u => chanOp s (.dispatchNonBlock u)
  | .work u => chanOp s (.work u)
  | .look u copied => chanOp s (.look u copied)
  | .check u => chanOp s (.check u)
  | .take u stack =>
      match s.chan.users u with
      | some user =>
          match user.phase with
          | .take addr =>
              let cqe := (trsChanCqeUpdate id s.chan.cq addr).1
              let (s, ret) := trsSwCqRecv s user.seen cqe stack
              some { s with chan := userTake id s.chan u user addr (ret = .finish) }
          | _ => none
      | none => none
  | .recv para uncopied => some { s with logicCq := (s.logicCq.copyReport para uncopied).2 }
  | .inst present => some { s with inst := present }
  | .valid valid => some { s with logicCq := { s.logicCq with valid := valid } }

def swCqMachine : Machine SwCqState SwCqOp where
  init s :=
    (chanCqMachine id).init s.chan ∧ s.chan.recvBlock = false ∧ s.chan.lock = false ∧
      s.enque = [] ∧ s.fullDrop = []
  step := swCqStep

/-- Every CQE is enqueued once at most, the head passes those that were enqueued
or dropped only, and it does pass those that were enqueued. -/
structure CqesOnce (s : SwCqState) : Prop where
  once : s.enque.Nodup
  handled : ∀ n < s.chan.moves, n ∈ s.enque ∨ n ∈ s.fullDrop
  passed : ∀ n ∈ s.enque, n < s.chan.moves

def handsOver (s : SwCqState) (u : ℕ) : Bool :=
  match (s.chan.users u).map CqUser.phase with
  | some (.take _) => true
  | _ => false

/-- The logic CQ takes no CQE that is handed over; and when the instance is gone,
it dropped the CQE before. -/
def NothingTaken (s : SwCqState) : SwCqOp → Prop
  | .take u _ =>
      handsOver s u = true →
        if s.inst = true then s.logicCq.valid = false ∨ s.logicCq.isFull
        else s.chan.moves ∈ s.fullDrop
  | _ => True

instance (s : SwCqState) : ∀ op, Decidable (NothingTaken s op)
  | .take u _ => inferInstanceAs (Decidable (handsOver s u = true → _))
  | .hwWrite _ | .dispatchNonBlock _ | .work _ | .look _ _ | .check _ | .recv _ _ | .inst _
  | .valid _ => isTrue trivial

variable {s t : SwCqState} {u : ℕ} {user : CqUser TrsCtrlCqe} {n : ℕ} {stack : LogicCqeV2}

/-! ## One dispatch at a time -/

/-- The lock of the channel is held by the dispatch that runs; it looked at the
CQE after the head was moved last. -/
structure SoleDispatch (c : ChanCqState TrsCtrlCqe) : Prop where
  recvBlock : c.recvBlock = false
  idle : c.lock = false → ∀ u, c.users u = none
  sole : ∀ u v, (c.users u).isSome → (c.users v).isSome → u = v
  user : ∀ u, ∀ user ∈ c.users u, user.kind = .dispatchNonBlock ∧
    (user.phase ≠ .look → user.seen = c.moves)

namespace SoleDispatch

variable {c d : ChanCqState TrsCtrlCqe}

theorem setUser_users (c : ChanCqState TrsCtrlCqe) (u : ℕ) (next : Option (CqUser TrsCtrlCqe)) :
    (ChanCq.setUser c u next).users = Function.update c.users u next := rfl

/-- The dispatch that runs goes on. -/
theorem setUser (h : SoleDispatch c) (hu : c.users u = some user) {next : CqUser TrsCtrlCqe}
    (hblock : d.recvBlock = c.recvBlock) (hlock : d.lock = c.lock) (husers : d.users = c.users)
    (hkind : next.kind = .dispatchNonBlock) (hseen : next.phase ≠ .look → next.seen = d.moves) :
    SoleDispatch (ChanCq.setUser d u (some next)) := by
  have hsome (v : ℕ) : ((ChanCq.setUser d u (some next)).users v).isSome →
      (c.users v).isSome := by
    intro hv
    rcases eq_or_ne v u with rfl | hne
    · simp [hu]
    · rwa [setUser_users, Function.update_of_ne hne, husers] at hv
  have hlocked : c.lock ≠ false := fun hfree => by simp [h.idle hfree u] at hu
  refine ⟨hblock.trans h.recvBlock, fun hfree => ?_, fun v w hv hw => ?_, fun v m hm => ?_⟩
  · exact absurd (hlock.symm.trans hfree) hlocked
  · exact h.sole v w (hsome v hv) (hsome w hw)
  · obtain rfl : v = u := h.sole v u (hsome v (Option.isSome_of_mem hm)) (by simp [hu])
    rw [setUser_users, Function.update_self, Option.mem_some_iff] at hm
    subst hm
    exact ⟨hkind, hseen⟩

/-- The dispatch that runs returns. -/
theorem userReturn (h : SoleDispatch c) (hu : c.users u = some user)
    (hblock : d.recvBlock = c.recvBlock) (husers : d.users = c.users) :
    SoleDispatch (ChanCq.userReturn d u user) := by
  have hnone (v : ℕ) : Function.update d.users u none v = none := by
    rcases eq_or_ne v u with rfl | hne
    · exact Function.update_self ..
    · rw [Function.update_of_ne hne, husers]
      by_contra hv
      exact hne (h.sole v u (Option.isSome_iff_ne_none.mpr hv) (by simp [hu]))
  rw [ChanCq.userReturn, (h.user u user hu).1]
  refine ⟨hblock.trans h.recvBlock, fun _ => hnone, fun v w hv _ => ?_, fun v m hm => ?_⟩
  · simp [ChanCq.setUser, hnone v] at hv
  · simp [ChanCq.setUser, hnone v] at hm

theorem start (h : SoleDispatch c) : SoleDispatch (trsChanCqDispatchNonBlock c u) := by
  unfold trsChanCqDispatchNonBlock
  split_ifs with hlock
  · exact h
  · have hnone := h.idle (by simpa using hlock)
    have heq {v : ℕ} {next : CqUser TrsCtrlCqe}
        (hv : (Function.update c.users u (some next) v).isSome) : v = u := by
      by_contra hne
      simp [Function.update_of_ne hne, hnone v] at hv
    refine ⟨h.recvBlock, fun hfree => by simp at hfree, fun v w hv hw => ?_, fun v m hm => ?_⟩
    · rw [heq hv, heq hw]
    · obtain rfl := heq (Option.isSome_of_mem hm)
      simp only [setUser_users, Function.update_self, Option.mem_some_iff] at hm
      subst hm
      simp

theorem work (h : SoleDispatch c) (hstep : trsChanWork c u = some d) : SoleDispatch d := by
  rw [trsChanWork, h.recvBlock] at hstep
  simp only [Bool.false_eq_true, if_false, Option.some.injEq] at hstep
  exact hstep ▸ h.start

theorem look (h : SoleDispatch c) (hu : c.users u = some user) {copied : Bool}
    (hstep : userLook c u user copied = some d) : SoleDispatch d := by
  have hkind := (h.user u user hu).1
  rw [userLook, hkind] at hstep
  dsimp only at hstep
  split_ifs at hstep
  · exact Option.some.inj hstep ▸ h.setUser hu rfl rfl rfl rfl fun _ => rfl
  · exact Option.some.inj hstep ▸ h.setUser hu rfl rfl rfl rfl fun _ => rfl
  · exact Option.some.inj hstep ▸ h.userReturn hu rfl rfl

theorem check (h : SoleDispatch c) (hu : c.users u = some user) {addr : CqAddr TrsCtrlCqe}
    (hphase : user.phase = .check addr) : SoleDispatch (userCheck c u user addr) := by
  obtain ⟨hkind, hseen⟩ := h.user u user hu
  have hseen := hseen (by simp [hphase])
  unfold userCheck
  rw [hkind]
  cases trsCqeIsValid (cqeAt c.cq addr) c.cq.loop
  · exact h.userReturn hu rfl rfl
  · dsimp only
    split_ifs
    · exact h.userReturn hu rfl rfl
    · exact h.setUser hu rfl rfl rfl rfl fun _ => hseen

theorem take (h : SoleDispatch c) (hu : c.users u = some user) (addr : CqAddr TrsCtrlCqe)
    (done : Bool) : SoleDispatch (userTake id c u user addr done) := by
  unfold userTake
  rw [(h.user u user hu).1]
  cases done
  · exact h.userReturn hu rfl rfl
  · exact h.setUser hu rfl rfl rfl rfl fun hne => absurd rfl hne

end SoleDispatch

/-! ## What a step does to the head and to the CQEs handed over -/

section Moves

variable {c d : ChanCqState TrsCtrlCqe}

theorem userReturn_moves : (userReturn c u user).moves = c.moves := by
  unfold userReturn
  split <;> rfl

theorem work_moves (hstep : trsChanWork c u = some d) : d.moves = c.moves := by
  unfold trsChanWork trsChanCqDispatchBlock trsChanCqDispatchNonBlock at hstep
  split_ifs at hstep <;> exact Option.some.inj hstep ▸ rfl

theorem dispatchNonBlock_moves : (trsChanCqDispatchNonBlock c u).moves = c.moves := by
  unfold trsChanCqDispatchNonBlock
  split_ifs <;> rfl

theorem look_moves (hkind : user.kind = .dispatchNonBlock) {copied : Bool}
    (hstep : userLook c u user copied = some d) : d.moves = c.moves := by
  rw [userLook, hkind] at hstep
  dsimp only at hstep
  split_ifs at hstep
  · exact Option.some.inj hstep ▸ rfl
  · exact Option.some.inj hstep ▸ rfl
  · exact Option.some.inj hstep ▸ userReturn_moves

theorem check_moves (hkind : user.kind = .dispatchNonBlock) (addr : CqAddr TrsCtrlCqe) :
    (userCheck c u user addr).moves = c.moves := by
  unfold userCheck
  rw [hkind]
  cases trsCqeIsValid (cqeAt c.cq addr) c.cq.loop
  · exact userReturn_moves
  · dsimp only
    split_ifs
    · exact userReturn_moves
    · rfl

theorem take_moves (hkind : user.kind = .dispatchNonBlock) (addr : CqAddr TrsCtrlCqe)
    (done : Bool) :
    (userTake id c u user addr done).moves = c.moves + done.toNat := by
  unfold userTake
  rw [hkind]
  cases done
  · exact userReturn_moves
  · rfl

end Moves

/-- A step of the channel that hands no CQE over. -/
theorem chanOp_cases (h : SoleDispatch s.chan) {op : ChanCqOp TrsCtrlCqe}
    (hop : (∃ cqe, op = .hwWrite cqe) ∨ (∃ u, op = .dispatchNonBlock u) ∨ (∃ u, op = .work u) ∨
      (∃ u copied, op = .look u copied) ∨ ∃ u, op = .check u)
    (hstep : chanOp s op = some t) :
    SoleDispatch t.chan ∧ t.chan.moves = s.chan.moves ∧ t.enque = s.enque ∧
      t.fullDrop = s.fullDrop := by
  obtain ⟨c, hc, rfl⟩ := Option.map_eq_some_iff.mp hstep
  suffices hchan : SoleDispatch c ∧ c.moves = s.chan.moves from ⟨hchan.1, hchan.2, rfl, rfl⟩
  rcases hop with ⟨cqe, rfl⟩ | ⟨u, rfl⟩ | ⟨u, rfl⟩ | ⟨u, copied, rfl⟩ | ⟨u, rfl⟩
  · simp only [chanCqStep, Option.ite_none_right_eq_some, Option.some.injEq] at hc
    obtain ⟨-, rfl⟩ := hc
    exact ⟨⟨h.recvBlock, h.idle, h.sole, h.user⟩, rfl⟩
  · simp only [chanCqStep, Option.ite_none_right_eq_some, Option.some.injEq] at hc
    obtain ⟨-, rfl⟩ := hc
    exact ⟨h.start, dispatchNonBlock_moves⟩
  · simp only [chanCqStep, Option.ite_none_right_eq_some] at hc
    exact ⟨h.work hc.2, work_moves hc.2⟩
  · obtain ⟨user, hu, hc⟩ := Option.bind_eq_some_iff.mp hc
    split at hc
    · exact ⟨h.look hu hc, look_moves (h.user u user hu).1 hc⟩
    · cases hc
  · obtain ⟨user, hu, hc⟩ := Option.bind_eq_some_iff.mp hc
    split at hc
    · next addr hphase =>
        obtain rfl := Option.some.inj hc
        exact ⟨h.check hu hphase, check_moves (h.user u user hu).1 addr⟩
    · cases hc

theorem take_cases (hstep : swCqStep s (.take u stack) = some t) :
    ∃ user addr cqe, s.chan.users u = some user ∧ user.phase = .take addr ∧
      t = { (trsSwCqRecv s user.seen cqe stack).1 with
        chan := userTake id s.chan u user addr
          ((trsSwCqRecv s user.seen cqe stack).2 = .finish) } := by
  simp only [swCqStep] at hstep
  split at hstep
  · next user hu =>
      split at hstep
      · next addr hphase =>
          refine ⟨user, addr, (trsChanCqeUpdate id s.chan.cq addr).1, hu, hphase, ?_⟩
          have hchan (n : ℕ) (cqe : TrsCtrlCqe) : (trsSwCqRecv s n cqe stack).1.chan = s.chan := by
            unfold trsSwCqRecv trsSwCqRecvProc
            split_ifs
            · rfl
            · split <;> rfl
          rw [← Option.some.inj hstep, hchan]
      · cases hstep
  · cases hstep

theorem handsOver_of_take (hu : s.chan.users u = some user) {addr : CqAddr TrsCtrlCqe}
    (hphase : user.phase = .take addr) : handsOver s u = true := by
  simp [handsOver, hu, hphase]

/-- What the callback does with the CQE. -/
theorem recv_cases (s : SwCqState) (n : ℕ) (cqe : TrsCtrlCqe) (stack : LogicCqeV2) :
    (s.inst = false ∧ trsSwCqRecv s n cqe stack = (s, .finish)) ∨
    (s.inst = true ∧ s.logicCq.valid = true ∧ ¬ s.logicCq.isFull ∧
      (trsSwCqRecv s n cqe stack).1.enque = n :: s.enque ∧
      (trsSwCqRecv s n cqe stack).1.fullDrop = s.fullDrop ∧
      (trsSwCqRecv s n cqe stack).2 = .continue) ∨
    (s.inst = true ∧ (s.logicCq.valid = false ∨ s.logicCq.isFull) ∧
      (trsSwCqRecv s n cqe stack).1.enque = s.enque ∧
      s.fullDrop ⊆ (trsSwCqRecv s n cqe stack).1.fullDrop ∧
      (trsSwCqRecv s n cqe stack).2 = .continue) := by
  unfold trsSwCqRecv trsSwCqRecvProc LogicCq.enque
  cases hinst : s.inst
  · exact .inl ⟨rfl, rfl⟩
  · cases hvalid : s.logicCq.valid
    · exact .inr (.inr ⟨rfl, .inl rfl, rfl, List.Subset.refl _, rfl⟩)
    · by_cases hfull : s.logicCq.isFull
      · simp [hfull]
      · simp [hfull]

theorem CqesOnce.congr (hmoves : t.chan.moves = s.chan.moves) (henque : t.enque = s.enque)
    (hdrop : s.fullDrop ⊆ t.fullDrop) (h : CqesOnce s) : CqesOnce t where
  once := henque ▸ h.once
  handled n hn := by
    rw [henque]
    exact (h.handled n (hmoves ▸ hn)).imp_right fun hin => hdrop hin
  passed n hn := by
    rw [henque] at hn
    rw [hmoves]
    exact h.passed n hn

/-- Handing a CQE over is right exactly when nothing is taken. -/
theorem take_cqesOnce (hinv : SoleDispatch s.chan) (h : CqesOnce s)
    (hstep : swCqStep s (.take u stack) = some t) :
    CqesOnce t ↔ NothingTaken s (.take u stack) := by
  obtain ⟨user, addr, cqe, hu, hphase, rfl⟩ := take_cases hstep
  obtain ⟨hkind, hseen⟩ := hinv.user u user hu
  rw [hseen (by simp [hphase])]
  have hhands := handsOver_of_take hu hphase
  simp only [NothingTaken, hhands, true_imp_iff]
  rcases recv_cases s s.chan.moves cqe stack with ⟨hinst, hrecv⟩ |
    ⟨hinst, hvalid, hfull, henque, -, hret⟩ | ⟨hinst, hrefused, henque, hdrop, hret⟩
  · -- the instance is gone, and the head moves
    rw [hrecv, hinst, if_neg (by simp)]
    have hmoves := take_moves (c := s.chan) (u := u) hkind addr true
    constructor
    · intro hnext
      refine (hnext.handled s.chan.moves ?_).resolve_left fun hin => ?_
      · simp [hmoves]
      · exact Nat.lt_irrefl _ (h.passed _ hin)
    · intro hin
      refine ⟨h.once, fun n hn => ?_, fun n hn => ?_⟩
      · simp only [decide_true, hmoves, Bool.toNat_true] at hn
        rcases Nat.lt_succ_iff_lt_or_eq.mp hn with hlt | rfl
        · exact h.handled n hlt
        · exact .inr hin
      · simp only [decide_true, hmoves]
        exact Nat.lt_succ_of_lt (h.passed n hn)
  · -- the CQE is enqueued, and the head stays
    rw [hinst, if_pos rfl]
    have hmoves := take_moves (c := s.chan) (u := u) hkind addr false
    constructor
    · intro hnext
      have hpassed := hnext.passed s.chan.moves (by simp [henque])
      simp [hret, hmoves] at hpassed
    · rintro (hinvalid | hfull')
      · rw [hvalid] at hinvalid
        cases hinvalid
      · exact absurd hfull' hfull
  · rw [hinst, if_pos rfl]
    have hmoves := take_moves (c := s.chan) (u := u) hkind addr false
    exact iff_of_true (h.congr (by simp [hret, hmoves]) henque hdrop) hrefused

/-- Every other step leaves the head and the CQEs handed over as they are. -/
theorem step_quiet (hinv : SoleDispatch s.chan) {op : SwCqOp} (hop : ∀ u stack, op ≠ .take u stack)
    (hstep : swCqStep s op = some t) :
    SoleDispatch t.chan ∧ t.chan.moves = s.chan.moves ∧ t.enque = s.enque ∧
      t.fullDrop = s.fullDrop := by
  cases op with
  | hwWrite cqe => exact chanOp_cases hinv (.inl ⟨_, rfl⟩) hstep
  | dispatchNonBlock u => exact chanOp_cases hinv (.inr (.inl ⟨_, rfl⟩)) hstep
  | work u => exact chanOp_cases hinv (.inr (.inr (.inl ⟨_, rfl⟩))) hstep
  | look u copied => exact chanOp_cases hinv (.inr (.inr (.inr (.inl ⟨_, _, rfl⟩)))) hstep
  | check u => exact chanOp_cases hinv (.inr (.inr (.inr (.inr ⟨_, rfl⟩)))) hstep
  | take u stack => exact absurd rfl (hop u stack)
  | recv para uncopied => exact Option.some.inj hstep ▸ ⟨hinv, rfl, rfl, rfl⟩
  | inst present => exact Option.some.inj hstep ▸ ⟨hinv, rfl, rfl, rfl⟩
  | valid v => exact Option.some.inj hstep ▸ ⟨hinv, rfl, rfl, rfl⟩

theorem step_sole {op : SwCqOp} (hinv : SoleDispatch s.chan) (hstep : swCqStep s op = some t) :
    SoleDispatch t.chan := by
  by_cases hop : ∃ u stack, op = .take u stack
  · obtain ⟨u, stack, rfl⟩ := hop
    obtain ⟨user, addr, cqe, hu, -, rfl⟩ := take_cases hstep
    exact hinv.take hu addr _
  · exact (step_quiet hinv (fun u stack heq => hop ⟨u, stack, heq⟩) hstep).1

theorem step_cqesOnce {op : SwCqOp} (hinv : SoleDispatch s.chan) (h : CqesOnce s)
    (hstep : swCqStep s op = some t) : CqesOnce t ↔ NothingTaken s op := by
  by_cases hop : ∃ u stack, op = .take u stack
  · obtain ⟨u, stack, rfl⟩ := hop
    exact take_cqesOnce hinv h hstep
  · have hne : ∀ u stack, op ≠ .take u stack := fun u stack heq => hop ⟨u, stack, heq⟩
    obtain ⟨-, hmoves, henque, hdrop⟩ := step_quiet hinv hne hstep
    refine iff_of_true (h.congr hmoves henque (hdrop ▸ List.Subset.refl _)) ?_
    cases op <;> first | exact trivial | exact absurd rfl (hne _ _)

/-- A step that cannot be made takes nothing. -/
theorem nothingTaken_of_refused (s : SwCqState) (op : SwCqOp) (hstep : swCqStep s op = none) :
    NothingTaken s op := by
  cases op with
  | take u stack =>
      intro hhands
      unfold handsOver at hhands
      split at hhands
      · next addr hphase =>
          obtain ⟨user, hu, hphase⟩ := Option.map_eq_some_iff.mp hphase
          simp [swCqStep, hu, hphase] at hstep
      · cases hhands
  | hwWrite | dispatchNonBlock | work | look | check | recv | inst | valid => exact trivial

theorem init_sole (h : swCqMachine.init s) : SoleDispatch s.chan := by
  obtain ⟨hchan, hblock, hlock, -, -⟩ := h
  have hnone : ∀ u, s.chan.users u = none := hchan.2.2.2.2.1
  exact ⟨hblock, fun _ => hnone, fun u v hu => by simp [hnone u] at hu,
    fun u m hm => by simp [hnone u] at hm⟩

theorem init_cqesOnce (h : swCqMachine.init s) : CqesOnce s := by
  obtain ⟨hchan, -, -, henque, hdrop⟩ := h
  have hmoves : s.chan.moves = 0 := hchan.2.2.2.2.2.2.1
  refine ⟨henque ▸ List.nodup_nil, fun n hn => ?_, fun n hn => ?_⟩
  · rw [hmoves] at hn
    cases hn
  · rw [henque] at hn
    cases hn

/-- In a run every CQE is enqueued once or dropped before the head moves past it,
exactly when no dispatch of the run has a CQE taken. -/
theorem cqes_once_iff_nothing_taken {ops : List SwCqOp} (h : swCqMachine.init s) :
    swCqMachine.along CqesOnce s ops ↔ swCqMachine.runOk NothingTaken s ops :=
  Machine.along_iff_runOk (M := swCqMachine) (I := fun s => SoleDispatch s.chan)
    (fun _ _ _ hinv hstep => step_sole hinv hstep)
    (fun _ _ _ hinv hp hstep => step_cqesOnce hinv hp hstep)
    nothingTaken_of_refused (init_sole h) (init_cqesOnce h)

def ctrlCqeExample : TrsCtrlCqe where
  sqId := 1
  matchFlag := 0
  sqHead := 0
  streamId := 3
  taskId := 4
  errCode := 0

def stackExample : LogicCqeV2 where
  streamId := 0
  taskId := 0
  errorCode := 0
  errorType := 0
  sqeType := 0
  sqId := 0
  sqHead := 0
  matchFlag := 0
  dropFlag := 0
  errorBit := 0
  accError := 0
  reserved0 := 0
  timeStamp := 0
  enqueTimestamp := 0

/-- Queues of four entries each. -/
def swCqExample : SwCqState where
  chan :=
    { cq :=
        { loop := 0, cqHead := 0, cqeValid := false, localMem := true, cqDepth := 4
          cqAddr := fun _ => { phase := 0, report := ctrlCqeExample } }
      recvBlock := false, lock := false, work := false, mutex := false
      users := fun _ => none, written := [], moves := 0, consumed := [] }
  inst := true
  logicCq := { valid := true, head := 0, tail := 0, cqDepth := 4, addr := fun _ => stackExample }
  enque := []
  fullDrop := []

theorem swCqExample_init : swCqMachine.init swCqExample := by
  simp [swCqMachine, chanCqMachine, swCqExample]

/-- An interrupt that finds no CQE. -/
def emptyDispatch : List SwCqOp := [.dispatchNonBlock 0, .look 0 true, .check 0]

/-- One CQE and two interrupts. -/
def dispatchTwice : List SwCqOp :=
  [.hwWrite ctrlCqeExample, .dispatchNonBlock 0, .look 0 true, .check 0, .take 0 stackExample,
    .dispatchNonBlock 0, .look 0 true, .check 0, .take 0 stackExample]

theorem cqes_once_empty_dispatch :
    swCqMachine.runOk NothingTaken swCqExample emptyDispatch ∧
      swCqMachine.along CqesOnce swCqExample emptyDispatch :=
  have hok : swCqMachine.runOk NothingTaken swCqExample emptyDispatch := by decide +kernel
  ⟨hok, (cqes_once_iff_nothing_taken swCqExample_init).mpr hok⟩

/-- The CQE is enqueued by each interrupt, and the head does not move. -/
theorem cqe_enqueued_twice :
    let s := swCqMachine.final swCqExample dispatchTwice
    swCqMachine.Reach s ∧ s.enque = [0, 0] ∧ s.chan.moves = 0 ∧ ¬ CqesOnce s := by
  have henque : (swCqMachine.final swCqExample dispatchTwice).enque = [0, 0] := by decide +kernel
  refine ⟨Machine.Reach.final (.start swCqExample_init) (by decide +kernel), henque,
    by decide +kernel, fun h => ?_⟩
  have honce := h.once
  rw [henque] at honce
  simp at honce

end OpiaiKernel.Trs.SwCq
