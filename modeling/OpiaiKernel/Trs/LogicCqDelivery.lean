import OpiaiKernel.Lib.Machine
import OpiaiKernel.Trs.LogicCqReceive

/-!
# Delivery by the logic completion queue

The abstract queue is a list.  An enqueue appends to it, and a receive takes a
run out of it behind skipped match CQEs of others.  What is enqueued is then
what was reported together with what is left, in order.

The machine runs the code.  A receive holds the mutex of the queue, and its
accesses to the queue are single steps; an enqueue holds the spin lock, and
stores and publishes in two steps.  Any steps of the two may interleave.  While
a receive closes its hole, its queue stands for the one that it leaves.
-/

namespace OpiaiKernel.Trs

open LogicCq

variable {α : Type} [LogicCqe α] {para : ReportRecvInfo}

/-! ## The abstract queue -/

/-- What was enqueued is what was reported and what is left, in order. -/
structure Conserved (enqueued reported left : List α) : Prop where
  perm : enqueued.Perm (reported ++ left)
  order : left.Sublist enqueued
  normal_order : enqueued.filter (¬ isCqeNeedMatch ·) =
    reported.filter (¬ isCqeNeedMatch ·) ++ left.filter (¬ isCqeNeedMatch ·)

theorem Conserved.nil : Conserved (α := α) [] [] [] := ⟨.nil, .slnil, rfl⟩

theorem Conserved.enque {enqueued reported left : List α} (h : Conserved enqueued reported left)
    (c : α) : Conserved (enqueued ++ [c]) reported (left ++ [c]) where
  perm := by
    rw [← List.append_assoc]
    exact h.perm.append_right [c]
  order := h.order.append_right [c]
  normal_order := by
    rw [List.filter_append, List.filter_append, h.normal_order, List.append_assoc]

theorem Conserved.takes {enqueued reported left pre run post : List α}
    (h : Conserved enqueued reported left) (ht : Takes para left pre run post) :
    Conserved enqueued (reported ++ run) (pre ++ post) where
  perm := by
    refine h.perm.trans ?_
    rw [ht.split, List.append_assoc]
    exact List.perm_append_comm_assoc pre run post |>.append_left reported
  order := by
    refine List.Sublist.trans ?_ h.order
    rw [ht.split]
    exact (List.sublist_append_right run post).append_left pre
  normal_order := by
    have hpre : pre.filter (¬ isCqeNeedMatch ·) = [] := by
      apply List.filter_eq_nil_iff.mpr
      intro c hc
      simpa using (ht.skipped c hc).1
    rw [h.normal_order, ht.split]
    simp only [List.filter_append, hpre, List.nil_append, List.append_assoc]

/-! ## The machine -/

/-- A finished version 1 receive: the content that it scanned, the entries that
it reported, and whether `copy_to_user` failed. -/
structure Receive (α : Type) where
  para : ReportRecvInfo
  scanned : List α
  cqes : List α
  fault : Bool

/-- How far the receive that holds the mutex is. -/
inductive RecvPhase
  | idle
  | locked (para : ReportRecvInfo)
  | tailRead (para : ReportRecvInfo) (tail : ℕ)
  | moving (reportCnt : ℕ) (moves : List Move)

/-- The queue with the entry that the holder of the spin lock has stored, and
what has happened so far. -/
structure CqRun (α : Type) where
  cq : LogicCq α
  storing : Option α
  phase : RecvPhase
  enqueued : List α
  receives : List (Receive α)

inductive CqStep (α : Type)
  | enqueStore (cqe : α)
  | enquePublish
  | recvLock (para : ReportRecvInfo)
  | recvReadTail
  | recvCopy (uncopied : ℕ)
  | recvMove
  | recvHead

/-- `trs_logic_cq_recv_para_check` -/
def recvParaCheck (para : ReportRecvInfo) : Except Errno Unit :=
  if (para.timeout < 0 ∧ para.timeout ≠ -1) ∨ para.cqeNum = 0 then .error .EINVAL else .ok ()

/-- The receive has read `tail`; it scans the content and copies its report. -/
def recvCopy (s : CqRun α) (para : ReportRecvInfo) (tail uncopied : ℕ) : CqRun α :=
  let range := s.cq.matchRange para tail
  let done (cqes : List α) (fault : Bool) : List (Receive α) :=
    s.receives ++ [⟨para, s.cq.contentTo tail, cqes, fault⟩]
  if range.2.1 = 0 then { s with phase := .idle, receives := done [] false }
  else if uncopied ≠ 0 then { s with phase := .idle, receives := done [] true }
  else
    { s with
      phase := .moving range.2.1 (s.cq.reportMoves range.1 range.2.1 range.2.2)
      receives := done (Ring.slice s.cq.addr range.1 range.2.1) false }

def cqStep (s : CqRun α) : CqStep α → Option (CqRun α)
  | .enqueStore cqe =>
      match s.storing with
      | some _ => none
      | none =>
          if s.cq.valid = false ∨ s.cq.isFull then some s
          else some { s with cq := s.cq.enqueStore cqe, storing := some cqe }
  | .enquePublish =>
      match s.storing with
      | none => none
      | some cqe =>
          some { s with
            cq := s.cq.enquePublish
            storing := none
            enqueued := s.enqueued ++ [cqe] }
  | .recvLock para =>
      match s.phase with
      | .idle =>
          if para.version ≠ 1 then none
          else if recvParaCheck para = .error .EINVAL then some s
          else if s.cq.valid = false then some s
          else if s.cq.isEmpty then
            some { s with receives := s.receives ++ [⟨para, [], [], false⟩] }
          else some { s with phase := .locked para }
      | _ => none
  | .recvReadTail =>
      match s.phase with
      | .locked para => some { s with phase := .tailRead para s.cq.tail }
      | _ => none
  | .recvCopy uncopied =>
      match s.phase with
      | .tailRead para tail => some (recvCopy s para tail uncopied)
      | _ => none
  | .recvMove =>
      match s.phase with
      | .moving reportCnt (m :: moves) =>
          some { s with cq := s.cq.moveCqes m, phase := .moving reportCnt moves }
      | _ => none
  | .recvHead =>
      match s.phase with
      | .moving reportCnt [] =>
          some { s with cq := s.cq.headUpdate reportCnt, phase := .idle }
      | _ => none

/-- A queue of version 1 receives, from its allocation on. -/
def cqMachine (α : Type) [LogicCqe α] : Machine (CqRun α) (CqStep α) where
  init s := s.cq.valid = true ∧ s.cq.head = 0 ∧ s.cq.tail = 0 ∧ 0 < s.cq.cqDepth ∧
    s.cq.cqDepth ≤ 65536 ∧ s.storing = none ∧ s.phase = .idle ∧ s.enqueued = [] ∧ s.receives = []
  step := cqStep

namespace CqRun

def reported (s : CqRun α) : List α := s.receives.flatMap Receive.cqes

/-- The queue that the receive in progress leaves. -/
def settled (s : CqRun α) : LogicCq α :=
  match s.phase with
  | .moving reportCnt moves => (s.cq.moveAll moves).headUpdate reportCnt
  | _ => s.cq

end CqRun

/-! ## The invariant -/

/-- What the receive in progress knows about the queue. -/
def PhaseInv (cq : LogicCq α) : RecvPhase → Prop
  | .idle => True
  | .locked para => 0 < para.cqeNum ∧ ¬ cq.isEmpty
  | .tailRead para tail =>
      0 < para.cqeNum ∧ tail < cq.cqDepth ∧ tail ≠ cq.head ∧
        Ring.count cq.cqDepth cq.head tail ≤ cq.live
  | .moving reportCnt moves =>
      ∃ k ≤ cq.live, reportCnt ≤ k ∧ ∀ m ∈ moves, m.Within cq.cqDepth cq.head k

/-- What a finished receive has done. -/
structure ReceiveOk (r : Receive α) : Prop where
  reportable : Reportable r.para r.cqes
  nothing_iff : r.scanned ≠ [] → r.fault = false →
    (r.cqes = [] ↔ ∀ c ∈ r.scanned, Foreign r.para c)

structure CqInv (s : CqRun α) : Prop where
  wf : s.cq.Wf
  conserved : Conserved s.enqueued s.reported s.settled.content
  receives : ∀ r ∈ s.receives, ReceiveOk r
  storing : ∀ c ∈ s.storing, s.settled.addr s.cq.tail = c ∧ s.cq.live + 1 < s.cq.cqDepth
  phase : PhaseInv s.cq s.phase

omit [LogicCqe α] in
theorem CqRun.settled_tail (s : CqRun α) : s.settled.tail = s.cq.tail := by
  rw [settled]
  split
  · rw [moveAll_eq]
    rfl
  · rfl

omit [LogicCqe α] in
theorem CqRun.settled_cqDepth (s : CqRun α) : s.settled.cqDepth = s.cq.cqDepth := by
  rw [settled]
  split
  · rw [moveAll_eq]
    rfl
  · rfl

theorem CqInv.settled_wf {s : CqRun α} (h : CqInv s) : s.settled.Wf := by
  rw [CqRun.settled]
  split
  · apply Wf.headUpdate
    rw [moveAll_eq]
    exact ⟨h.wf.head_lt, h.wf.tail_lt, h.wf.depth_le⟩
  · exact h.wf

theorem CqInv.settled_live_le {s : CqRun α} (h : CqInv s) : s.settled.live ≤ s.cq.live := by
  rw [CqRun.settled]
  split
  · next reportCnt moves hphase =>
      have hwf : (s.cq.moveAll moves).Wf := by
        rw [moveAll_eq]
        exact ⟨h.wf.head_lt, h.wf.tail_lt, h.wf.depth_le⟩
      have hlive : (s.cq.moveAll moves).live = s.cq.live := by
        rw [moveAll_eq]
        rfl
      obtain ⟨k, hk, hle, -⟩ : PhaseInv s.cq (.moving reportCnt moves) := hphase ▸ h.phase
      rw [live_headUpdate hwf (by omega)]
      omega
  · exact le_rfl

theorem cqInv_init {s : CqRun α} (hs : (cqMachine α).init s) : CqInv s := by
  obtain ⟨-, hhead, htail, hpos, hdepth, hstoring, hphase, henq, hrecv⟩ := hs
  have hwf : s.cq.Wf := ⟨by omega, by omega, hdepth⟩
  have hsettled : s.settled = s.cq := by
    rw [CqRun.settled, hphase]
  have hcontent : s.cq.content = [] := by
    rw [content_eq, hwf.live_eq_zero_iff.mpr (htail.trans hhead.symm), Ring.content_zero]
  constructor
  · exact hwf
  · rw [CqRun.reported, hsettled, henq, hrecv, hcontent]
    exact .nil
  · simp [hrecv]
  · simp [hstoring]
  · rw [hphase]
    trivial

/-! ## Enqueues -/

theorem CqInv.settled_enqueStore {s : CqRun α} (h : CqInv s) (c : α) :
    ({ s with cq := s.cq.enqueStore c, storing := some c } : CqRun α).settled =
      s.settled.enqueStore c := by
  rcases hs : s with ⟨cq, storing, phase, enqueued, receives⟩
  subst hs
  cases phase with
  | idle => rfl
  | locked para => rfl
  | tailRead para tail => rfl
  | moving reportCnt moves =>
      obtain ⟨k, hk, -, hmoves⟩ : PhaseInv cq (.moving reportCnt moves) := h.phase
      have hblit := blitAll_update hmoves cq.addr c hk
      simp only [CqRun.settled, moveAll_eq]
      simp only [LogicCq.enqueStore, LogicCq.headUpdate, hblit]

theorem CqInv.enqueStore {s : CqRun α} (h : CqInv s) (hfull : ¬ s.cq.isFull) (c : α) :
    CqInv { s with cq := s.cq.enqueStore c, storing := some c } where
  wf := ⟨h.wf.head_lt, h.wf.tail_lt, h.wf.depth_le⟩
  conserved := by
    rw [h.settled_enqueStore, content_enqueStore h.settled_wf]
    exact h.conserved
  receives := h.receives
  storing := by
    intro c' hc'
    obtain rfl : c = c' := Option.some.inj hc'
    rw [h.settled_enqueStore]
    refine ⟨?_, h.wf.live_succ_lt hfull⟩
    change Function.update s.settled.addr s.settled.tail c s.cq.tail = c
    rw [s.settled_tail, Function.update_self]
  phase := by
    have hphase := h.phase
    cases hp : s.phase <;> rw [hp] at hphase <;> exact hphase

omit [LogicCqe α] in
theorem CqRun.settled_enquePublish (s : CqRun α) (es : List α) :
    ({ s with cq := s.cq.enquePublish, storing := none, enqueued := es } : CqRun α).settled =
      s.settled.enquePublish := by
  rcases s with ⟨cq, storing, phase, enqueued, receives⟩
  cases phase with
  | moving reportCnt moves => simp [CqRun.settled, moveAll_eq, LogicCq.headUpdate,
      LogicCq.enquePublish]
  | _ => rfl

theorem CqInv.enquePublish {s : CqRun α} (h : CqInv s) {c : α} (hc : c ∈ s.storing) :
    CqInv { s with cq := s.cq.enquePublish, storing := none, enqueued := s.enqueued ++ [c] } := by
  obtain ⟨haddr, hlt⟩ := h.storing c hc
  have hlive := live_enquePublish h.wf hlt
  constructor
  · exact h.wf.enquePublish
  · have hsettled : s.settled.live + 1 < s.settled.cqDepth := by
      have hle := h.settled_live_le
      rw [s.settled_cqDepth]
      omega
    rw [s.settled_enquePublish, content_enquePublish h.settled_wf hsettled, s.settled_tail, haddr]
    exact h.conserved.enque c
  · exact h.receives
  · simp
  · have hphase := h.phase
    cases hp : s.phase with
    | idle => trivial
    | locked para =>
        rw [hp] at hphase
        refine ⟨hphase.1, ?_⟩
        rw [← h.wf.enquePublish.live_eq_zero_iff]
        omega
    | tailRead para tail =>
        rw [hp] at hphase
        obtain ⟨hnum, htail, hne, hle⟩ := hphase
        exact ⟨hnum, htail, hne, hle.trans ((Nat.le_succ _).trans hlive.ge)⟩
    | moving reportCnt moves =>
        rw [hp] at hphase
        obtain ⟨k, hk, hle, hmoves⟩ := hphase
        exact ⟨k, hk.trans ((Nat.le_succ _).trans hlive.ge), hle, hmoves⟩

/-! ## Receives -/

theorem CqInv.recvLock {s : CqRun α} (h : CqInv s) (hidle : s.phase = .idle)
    (hnum : 0 < para.cqeNum) (hne : ¬ s.cq.isEmpty) :
    CqInv { s with phase := .locked para } := by
  have hsettled : ({ s with phase := .locked para } : CqRun α).settled = s.settled := by
    rw [CqRun.settled, CqRun.settled, hidle]
  constructor
  · exact h.wf
  · rw [hsettled]
    exact h.conserved
  · exact h.receives
  · rw [hsettled]
    exact h.storing
  · exact ⟨hnum, hne⟩

theorem CqInv.recvReadTail {s : CqRun α} (h : CqInv s) (hlocked : s.phase = .locked para) :
    CqInv { s with phase := .tailRead para s.cq.tail } := by
  have hsettled : ({ s with phase := .tailRead para s.cq.tail } : CqRun α).settled =
      s.settled := by
    rw [CqRun.settled, CqRun.settled, hlocked]
  obtain ⟨hnum, hne⟩ : PhaseInv s.cq (.locked para) := hlocked ▸ h.phase
  constructor
  · exact h.wf
  · rw [hsettled]
    exact h.conserved
  · exact h.receives
  · rw [hsettled]
    exact h.storing
  · exact ⟨hnum, h.wf.tail_lt, hne, le_rfl⟩

/-- A receive that ends without a report leaves everything as it was. -/
theorem CqInv.recvNothing {s : CqRun α} (h : CqInv s) (hsettled : s.settled = s.cq)
    {r : Receive α} (hr : ReceiveOk r) (hcqes : r.cqes = []) :
    CqInv { s with phase := .idle, receives := s.receives ++ [r] } where
  wf := h.wf
  conserved := by
    have hconserved := h.conserved
    rw [hsettled] at hconserved
    change Conserved s.enqueued ((s.receives ++ [r]).flatMap Receive.cqes) s.cq.content
    simpa [CqRun.reported, hcqes] using hconserved
  receives := by
    intro r' hr'
    rcases List.mem_append.mp hr' with hr' | hr'
    · exact h.receives r' hr'
    · exact List.mem_singleton.mp hr' ▸ hr
  storing := by
    have hstoring := h.storing
    rwa [hsettled] at hstoring
  phase := trivial

theorem CqInv.recvCopy {s : CqRun α} (h : CqInv s) {tail : ℕ}
    (hread : s.phase = .tailRead para tail) (uncopied : ℕ) :
    CqInv (recvCopy s para tail uncopied) := by
  have hsettled : s.settled = s.cq := by
    rw [CqRun.settled, hread]
  obtain ⟨hnum, htail, hne, hle⟩ : PhaseInv s.cq (.tailRead para tail) := hread ▸ h.phase
  rcases matchRange_spec h.wf hnum htail hne with ⟨hzero, hall⟩ | ⟨pre, run, post, htakes, hr, hfit⟩
  · -- only match CQEs of others
    rw [Trs.recvCopy, if_pos hzero]
    exact h.recvNothing hsettled ⟨trivial, fun _ _ => by simpa using hall⟩ rfl
  · have hrun := List.length_pos_of_ne_nil htakes.nonempty
    rw [Trs.recvCopy, hr]
    dsimp only
    rw [if_neg (by omega)]
    split
    · exact h.recvNothing hsettled ⟨trivial, fun _ hfault => by simp at hfault⟩ rfl
    · obtain ⟨rest, hcontent⟩ := content_prefix hle
      have hall : Takes para s.cq.content pre run (post ++ rest) :=
        hcontent ▸ htakes.append rest
      have hlen := htakes.length_eq
      rw [contentTo, Ring.length_content] at hlen
      have hlive := h.wf.live_lt
      have hclose := closes_reportMoves s.cq h.wf.depth_le h.wf.head_lt hrun (by omega) hfit
      have hwithin := within_reportMoves s.cq h.wf.depth_le h.wf.head_lt (by omega) hfit
      have hslice := slice_of_takes htakes hfit
      have hok : ReceiveOk ⟨para, s.cq.contentTo tail, run, false⟩ :=
        ⟨htakes.reportable, fun _ _ =>
          ⟨fun hnil => absurd hnil htakes.nonempty, fun hf => absurd hf htakes.not_all_foreign⟩⟩
      rw [hslice]
      constructor
      · exact h.wf
      · have hconserved := h.conserved
        rw [hsettled] at hconserved
        have htaken := hconserved.takes hall
        have hafter := content_headUpdate h.wf hall hclose
        rw [← moveAll_eq] at hafter
        simpa [CqRun.reported, CqRun.settled, hafter] using htaken
      · intro r' hr'
        rcases List.mem_append.mp hr' with hr' | hr'
        · exact h.receives r' hr'
        · exact List.mem_singleton.mp hr' ▸ hok
      · intro c hc
        obtain ⟨haddr, hlt⟩ := h.storing c hc
        rw [hsettled] at haddr
        refine ⟨?_, hlt⟩
        have hlater := hclose.later s.cq.live (by omega) hlive
        rw [live, Ring.pos_count h.wf.head_lt h.wf.tail_lt, haddr] at hlater
        simp only [CqRun.settled, moveAll_eq]
        exact hlater
      · exact ⟨pre.length + run.length, by change _ ≤ s.cq.live; omega, by omega, hwithin⟩

theorem CqInv.recvMove {s : CqRun α} (h : CqInv s) {reportCnt : ℕ} {m : Move}
    {moves : List Move} (hmoving : s.phase = .moving reportCnt (m :: moves)) :
    CqInv { s with cq := s.cq.moveCqes m, phase := .moving reportCnt moves } := by
  have hsettled : ({ s with
      cq := s.cq.moveCqes m, phase := .moving reportCnt moves } : CqRun α).settled =
      s.settled := by
    rw [CqRun.settled, CqRun.settled, hmoving]
    rfl
  obtain ⟨k, hk, hle, hmoves⟩ : PhaseInv s.cq (.moving reportCnt (m :: moves)) :=
    hmoving ▸ h.phase
  constructor
  · exact ⟨h.wf.head_lt, h.wf.tail_lt, h.wf.depth_le⟩
  · rw [hsettled]
    exact h.conserved
  · exact h.receives
  · rw [hsettled]
    exact h.storing
  · exact ⟨k, hk, hle, fun m hm => hmoves m (List.mem_cons_of_mem _ hm)⟩

theorem CqInv.recvHead {s : CqRun α} (h : CqInv s) {reportCnt : ℕ}
    (hmoving : s.phase = .moving reportCnt []) :
    CqInv { s with cq := s.cq.headUpdate reportCnt, phase := .idle } := by
  have hsettled : ({ s with cq := s.cq.headUpdate reportCnt, phase := .idle } : CqRun α).settled =
      s.settled := by
    rw [CqRun.settled, CqRun.settled, hmoving]
    rfl
  obtain ⟨k, hk, hle, -⟩ : PhaseInv s.cq (.moving reportCnt []) := hmoving ▸ h.phase
  constructor
  · exact h.wf.headUpdate reportCnt
  · rw [hsettled]
    exact h.conserved
  · exact h.receives
  · rw [hsettled]
    intro c hc
    obtain ⟨haddr, hlt⟩ := h.storing c hc
    refine ⟨haddr, ?_⟩
    change (s.cq.headUpdate reportCnt).live + 1 < s.cq.cqDepth
    rw [live_headUpdate h.wf (by omega)]
    omega
  · trivial

/-! ## Runs -/

theorem CqInv.step {s t : CqRun α} {a : CqStep α} (h : CqInv s) (hstep : cqStep s a = some t) :
    CqInv t := by
  cases a with
  | enqueStore c =>
      simp only [cqStep] at hstep
      split at hstep
      · simp at hstep
      · split at hstep <;> obtain rfl := Option.some.inj hstep
        · exact h
        · next hfull => exact h.enqueStore (fun hf => hfull (.inr hf)) c
  | enquePublish =>
      simp only [cqStep] at hstep
      split at hstep
      · simp at hstep
      · next c hc =>
          obtain rfl := Option.some.inj hstep
          exact h.enquePublish hc
  | recvLock para =>
      simp only [cqStep] at hstep
      split at hstep
      · next hidle =>
          split at hstep
          · simp at hstep
          · split at hstep
            · exact Option.some.inj hstep ▸ h
            · next hcheck =>
                have hnum : 0 < para.cqeNum := by
                  by_contra hzero
                  apply hcheck
                  rw [recvParaCheck, if_pos (.inr (by omega))]
                split at hstep
                · exact Option.some.inj hstep ▸ h
                · split at hstep <;> obtain rfl := Option.some.inj hstep
                  · have hsettled : s.settled = s.cq := by
                      rw [CqRun.settled, hidle]
                    have hnothing := h.recvNothing hsettled (r := ⟨para, [], [], false⟩)
                      ⟨trivial, fun hne => absurd rfl hne⟩ rfl
                    rwa [← hidle] at hnothing
                  · next hne => exact h.recvLock hidle hnum hne
      · simp at hstep
  | recvReadTail =>
      simp only [cqStep] at hstep
      split at hstep
      · next hlocked => exact Option.some.inj hstep ▸ h.recvReadTail hlocked
      · simp at hstep
  | recvCopy uncopied =>
      simp only [cqStep] at hstep
      split at hstep
      · next hread => exact Option.some.inj hstep ▸ h.recvCopy hread uncopied
      · simp at hstep
  | recvMove =>
      simp only [cqStep] at hstep
      split at hstep
      · next hmoving => exact Option.some.inj hstep ▸ h.recvMove hmoving
      · simp at hstep
  | recvHead =>
      simp only [cqStep] at hstep
      split at hstep
      · next hmoving => exact Option.some.inj hstep ▸ h.recvHead hmoving
      · simp at hstep

theorem cqInv_reach {s : CqRun α} (h : (cqMachine α).Reach s) : CqInv s :=
  h.invariant (fun _ => cqInv_init) fun _ _ _ hs _ hstep => hs.step hstep

/-- Once the report is copied, the rest of the receive is that of the
uninterrupted `trs_logic_cq_copy_report`. -/
theorem settled_recvCopy (s : CqRun α) (uncopied : ℕ) (hvalid : s.cq.valid = true)
    (hne : ¬ s.cq.isEmpty) (hversion : para.version = 1) :
    (recvCopy s para s.cq.tail uncopied).settled = (s.cq.copyReport para uncopied).2 := by
  rw [copyReport, if_neg (by simp [hvalid]), if_neg hne, if_pos hversion, matchCopy, recvCopy]
  obtain ⟨⟨start, reportCnt, rollback⟩, hr⟩ : ∃ r, s.cq.matchRange para s.cq.tail = r := ⟨_, rfl⟩
  rw [hr]
  dsimp only
  split
  · rfl
  · split
    · rfl
    · simp [CqRun.settled]

/-- Delivery: what was enqueued is, in order, what was reported and the queue
that the receive in progress leaves; between receives that is the queue itself.
Match CQEs go to their receivers, at the end of a report, and a receive that is
not stopped by a fault reports nothing just when it has scanned nothing for it. -/
structure CqDelivery (s : CqRun α) : Prop where
  conserved : Conserved s.enqueued s.reported s.settled.content
  settled_eq : (∀ reportCnt moves, s.phase ≠ .moving reportCnt moves) → s.settled = s.cq
  match_last : ∀ r ∈ s.receives, ∀ xs c ys, r.cqes = xs ++ c :: ys → isCqeNeedMatch c →
    isCqeMatch c r.para.streamId r.para.taskId ∧ ys = []
  nothing_iff : ∀ r ∈ s.receives, r.scanned ≠ [] → r.fault = false →
    (r.cqes = [] ↔ ∀ c ∈ r.scanned, Foreign r.para c)

theorem logic_cq_delivers (s : CqRun α) (h : (cqMachine α).Reach s) : CqDelivery s := by
  have hinv := cqInv_reach h
  constructor
  · exact hinv.conserved
  · intro hphase
    rw [CqRun.settled]
    split
    · next reportCnt moves hmoving => exact absurd hmoving (hphase reportCnt moves)
    · rfl
  · intro r hr xs c ys hcqes hneed
    have hrep := (hinv.receives r hr).reportable
    rw [hcqes] at hrep
    exact hrep.match_last hneed
  · exact fun r hr => (hinv.receives r hr).nothing_iff

/-! ## Three short runs -/

/-- A new queue of four slots. -/
def newCq : CqRun LogicCqeV1 where
  cq := ⟨true, 0, 0, 4, fun _ => cqeV1 0 0 0⟩
  storing := none
  phase := .idle
  enqueued := []
  receives := []

/-- A match CQE of another task and an ordinary CQE are enqueued, and a receive
has come to its copy. -/
def upToCopy : List (CqStep LogicCqeV1) :=
  [.enqueStore (cqeV1 1 5 6), .enquePublish, .enqueStore (cqeV1 0 7 8), .enquePublish,
    .recvLock ⟨1, 2, 16, 0, 1⟩, .recvReadTail]

def cqAfter (ops : List (CqStep LogicCqeV1)) : CqRun LogicCqeV1 :=
  ((cqMachine LogicCqeV1).run newCq ops).getD newCq

theorem logic_cq_delivers_hole :
    CqDelivery (cqAfter (upToCopy ++ [.recvCopy 0, .recvMove, .recvHead])) :=
  logic_cq_delivers _ (Machine.Reach.run (upToCopy ++ [.recvCopy 0, .recvMove, .recvHead])
    (s := newCq) (.start ⟨rfl, rfl, rfl, by decide, by decide, rfl, rfl, rfl, rfl⟩) rfl)

/-- When `copy_to_user` faults, nothing is reported of the ordinary CQE, and
between the block moves and the head update the raw content holds the skipped
CQE twice. -/
theorem logic_cq_fault_and_midway :
    (∃ s : CqRun LogicCqeV1, (cqMachine LogicCqeV1).Reach s ∧ ∃ r ∈ s.receives,
      r.scanned ≠ [] ∧ r.cqes = [] ∧ ∃ c ∈ r.scanned, ¬ isCqeNeedMatch c) ∧
    ∃ s : CqRun LogicCqeV1, (cqMachine LogicCqeV1).Reach s ∧
      ¬ s.enqueued.Perm (s.reported ++ s.cq.content) := by
  have hinit : (cqMachine LogicCqeV1).Reach newCq :=
    .start ⟨rfl, rfl, rfl, by decide, by decide, rfl, rfl, rfl, rfl⟩
  refine ⟨⟨_, Machine.Reach.run (upToCopy ++ [.recvCopy 16]) hinit rfl, ?_⟩,
    ⟨_, Machine.Reach.run (upToCopy ++ [.recvCopy 0, .recvMove]) hinit rfl, ?_⟩⟩
  · decide +kernel
  · decide +kernel

end OpiaiKernel.Trs
