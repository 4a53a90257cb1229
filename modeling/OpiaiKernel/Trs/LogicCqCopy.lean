import OpiaiKernel.Trs.LogicCqWakeup

/-!
# The copy of a receive to its caller

A version 1 receive bounds the run that it copies by the request.  The other
receive copies all entries up to the tail or the wrap, whatever the caller has
asked for.

A receive looks at the queue again as long as its last result is not negative.
What `copy_to_user` leaves uncopied is positive, so that a copy which fails at
every attempt keeps the receive in its loop.
-/

namespace OpiaiKernel.Trs

variable {α : Type} [LogicCqe α]

namespace LogicCq

variable {cq : LogicCq α} {para : ReportRecvInfo}

/-! ## The entries that are copied -/

/-- The number of entries from the head up to the tail or the wrap. -/
def straight (cq : LogicCq α) : ℕ :=
  if cq.tail > cq.head then cq.tail - cq.head else cq.cqDepth - cq.head

/-- The first position and the number of the entries that `copy_to_user` is
called with. -/
def copyArgs (cq : LogicCq α) (para : ReportRecvInfo) : Option (ℕ × ℕ) :=
  if cq.valid = false ∨ cq.isEmpty then none
  else if para.version = 1 then
    let (start, reportCnt, _) := cq.matchRange para cq.tail
    if reportCnt = 0 then none else some (start, reportCnt)
  else
    some (cq.head, if cq.tail > cq.head then Word.sub 32 cq.tail cq.head
      else Word.sub 32 cq.cqDepth cq.head)

/-- `report_cqe_num` -/
def reportCqeNum : Except RecvErr (List α) → ℕ
  | .ok cqes => cqes.length
  | .error _ => 0

theorem matchCopy_result (cq : LogicCq α) (para : ReportRecvInfo) (uncopied : ℕ) :
    (∃ err, cq.matchCopy para uncopied = (.error err, cq)) ∨
      ∃ start rollback cqes moves, uncopied = 0 ∧
        cq.matchRange para cq.tail = (start, cqes.length, rollback) ∧ cqes.length ≠ 0 ∧
        cq.matchCopy para uncopied = (.ok cqes, cq.moveAll moves) := by
  rw [matchCopy]
  obtain ⟨⟨start, reportCnt, rollback⟩, hr⟩ : ∃ r, cq.matchRange para cq.tail = r := ⟨_, rfl⟩
  rw [hr]
  dsimp only
  split
  · exact .inl ⟨_, rfl⟩
  · next hcnt =>
      split
      · exact .inl ⟨_, rfl⟩
      · next hcopied =>
          refine .inr ⟨start, rollback, Ring.slice cq.addr start reportCnt, _, ?_, ?_, ?_, rfl⟩
          · exact not_not.mp hcopied
          · rw [Ring.length_slice]
          · rwa [Ring.length_slice]

omit [LogicCqe α] in
theorem nonMatchCopy_result (cq : LogicCq α) (uncopied : ℕ) :
    (∃ err, cq.nonMatchCopy uncopied = (.error err, cq)) ∨
      ∃ cqes, uncopied = 0 ∧ cqes.length = (if cq.tail > cq.head then Word.sub 32 cq.tail cq.head
        else Word.sub 32 cq.cqDepth cq.head) ∧ cq.nonMatchCopy uncopied = (.ok cqes, cq) := by
  rw [nonMatchCopy]
  split
  · exact .inl ⟨_, rfl⟩
  · next hcopied => exact .inr ⟨_, not_not.mp hcopied, Ring.length_slice _ _ _, rfl⟩

/-- A receive that fails changes nothing; one that succeeds reports the entries
that it has copied, and the head passes them. -/
theorem copyReport_result (cq : LogicCq α) (para : ReportRecvInfo) (uncopied : ℕ) :
    (∃ err, cq.copyReport para uncopied = (.error err, cq)) ∨
      ∃ start cqes cq', cq.copyArgs para = some (start, cqes.length) ∧
        cq.copyReport para uncopied = (.ok cqes, cq') ∧ uncopied = 0 ∧
        cq'.head = Word.add 32 cq.head cqes.length % cq.cqDepth ∧ cq'.tail = cq.tail ∧
        cq'.cqDepth = cq.cqDepth ∧ cq'.valid = cq.valid := by
  rw [copyReport, copyArgs]
  by_cases hvalid : cq.valid = false
  · rw [if_pos hvalid]
    exact .inl ⟨_, rfl⟩
  rw [if_neg hvalid]
  by_cases hempty : cq.isEmpty
  · rw [if_pos hempty]
    exact .inl ⟨_, rfl⟩
  have hbusy : ¬ (cq.valid = false ∨ cq.isEmpty) := fun h => h.elim hvalid hempty
  rw [if_neg hempty, if_neg hbusy]
  by_cases hversion : para.version = 1
  · rw [if_pos hversion, if_pos hversion]
    rcases matchCopy_result cq para uncopied with
      ⟨err, hcopy⟩ | ⟨start, rollback, cqes, moves, hzero, hrange, hne, hcopy⟩
    · exact .inl ⟨err, by rw [hcopy]⟩
    · refine .inr ⟨start, cqes, _, ?_, by rw [hcopy], hzero, ?_⟩
      · rw [hrange]
        exact if_neg hne
      · rw [moveAll_eq]
        exact ⟨rfl, rfl, rfl, rfl⟩
  · rw [if_neg hversion, if_neg hversion]
    rcases nonMatchCopy_result cq uncopied with ⟨err, hcopy⟩ | ⟨cqes, hzero, hlen, hcopy⟩
    · exact .inl ⟨err, by rw [hcopy]⟩
    · exact .inr ⟨cq.head, cqes, cq.headUpdate cqes.length, by rw [hlen], by rw [hcopy],
        hzero, rfl, rfl, rfl, rfl⟩

/-- The copy and the report stay inside the buffer of the caller, and the head
passes what is reported. -/
structure StaysInBuffer (cq : LogicCq α) (para : ReportRecvInfo) : Prop where
  copied : ∀ start num, cq.copyArgs para = some (start, num) → num ≤ para.cqeNum
  reported : ∀ uncopied, reportCqeNum (cq.copyReport para uncopied).1 ≤ para.cqeNum
  advanced : ∀ uncopied, (cq.copyReport para uncopied).2.head =
    (cq.head + reportCqeNum (cq.copyReport para uncopied).1) % cq.cqDepth

/-- A version 1 receive copies no more than the request and the memory hold. -/
theorem copyArgs_match_le (hwf : cq.Wf) (hnum : 0 < para.cqeNum) (hversion : para.version = 1)
    {start num : ℕ} (h : cq.copyArgs para = some (start, num)) :
    num ≤ para.cqeNum ∧ num ≤ cq.cqDepth := by
  rw [copyArgs, if_pos hversion] at h
  split at h
  · simp at h
  · next hbusy =>
      push Not at hbusy
      rcases matchRange_spec hwf hnum hwf.tail_lt hbusy.2 with
        ⟨hzero, -⟩ | ⟨pre, run, post, htakes, hrange, hfit⟩
      · simp [hzero] at h
      · rw [hrange] at h
        dsimp only at h
        split at h
        · simp at h
        · simp only [Option.some.injEq, Prod.mk.injEq] at h
          rw [← h.2]
          exact ⟨htakes.length_le, by omega⟩

theorem copyArgs_nonMatch (hwf : cq.Wf) (hvalid : cq.valid = true) (hne : ¬ cq.isEmpty)
    (hversion : para.version ≠ 1) : cq.copyArgs para = some (cq.head, cq.straight) := by
  have hhead := hwf.head_lt
  have htail := hwf.tail_lt
  have hdepth := hwf.depth_le
  have hbusy : ¬ (cq.valid = false ∨ cq.isEmpty) := fun h => h.elim (by simp [hvalid]) hne
  rw [copyArgs, if_neg hbusy, if_neg hversion, straight]
  split
  · rw [Word.sub_of_le (by omega) (by omega)]
  · rw [Word.sub_of_le (by omega) (by omega)]

theorem staysInBuffer_of_copied (hwf : cq.Wf)
    (hcopied : ∀ start num, cq.copyArgs para = some (start, num) →
      num ≤ para.cqeNum ∧ num ≤ cq.cqDepth) : cq.StaysInBuffer para := by
  have hhead := hwf.head_lt
  have hdepth := hwf.depth_le
  refine ⟨fun start num h => (hcopied start num h).1, ?_, ?_⟩
  · intro uncopied
    rcases copyReport_result cq para uncopied with
      ⟨err, hcopy⟩ | ⟨start, cqes, cq', hargs, hcopy, -⟩
    · rw [hcopy]
      exact Nat.zero_le _
    · rw [hcopy]
      exact (hcopied _ _ hargs).1
  · intro uncopied
    rcases copyReport_result cq para uncopied with
      ⟨err, hcopy⟩ | ⟨start, cqes, cq', hargs, hcopy, -, hhead', -⟩
    · rw [hcopy]
      exact (Nat.mod_eq_of_lt hhead).symm
    · have hle := (hcopied _ _ hargs).2
      rw [hcopy]
      dsimp only [reportCqeNum]
      rw [hhead', Word.add_of_lt (by omega)]

theorem staysInBuffer_iff (hwf : cq.Wf) (hnum : 0 < para.cqeNum) :
    cq.StaysInBuffer para ↔ cq.valid = false ∨ cq.isEmpty ∨ para.version = 1 ∨
      cq.straight ≤ para.cqeNum := by
  constructor
  · intro h
    by_contra hbad
    push Not at hbad
    obtain ⟨hvalid, hne, hversion, hgt⟩ := hbad
    have hargs := copyArgs_nonMatch hwf (by simpa using hvalid) hne hversion
    have hle := h.copied _ _ hargs
    omega
  · intro hcond
    apply staysInBuffer_of_copied hwf
    intro start num hargs
    by_cases hbusy : cq.valid = false ∨ cq.isEmpty
    · rw [copyArgs, if_pos hbusy] at hargs
      simp at hargs
    by_cases hversion : para.version = 1
    · exact copyArgs_match_le hwf hnum hversion hargs
    · push Not at hbusy
      have hle : cq.straight ≤ para.cqeNum := by
        rcases hcond with hv | he | hone | hle
        · exact absurd hv hbusy.1
        · exact absurd he hbusy.2
        · exact absurd hone hversion
        · exact hle
      have hall := copyArgs_nonMatch hwf (by simpa using hbusy.1) hbusy.2 hversion
      rw [hall] at hargs
      simp only [Option.some.injEq, Prod.mk.injEq] at hargs
      rw [← hargs.2]
      refine ⟨hle, ?_⟩
      have htail := hwf.tail_lt
      rw [straight]
      split <;> omega

theorem Wf.copyReport (hwf : cq.Wf) (para : ReportRecvInfo) (uncopied : ℕ) :
    (cq.copyReport para uncopied).2.Wf := by
  rcases copyReport_result cq para uncopied with
    ⟨err, hcopy⟩ | ⟨start, cqes, cq', -, hcopy, -, hhead, htail, hdepth, -⟩
  · rw [hcopy]
    exact hwf
  · have hlt := hwf.head_lt
    have hpos : 0 < cq.cqDepth := by omega
    rw [hcopy]
    refine ⟨?_, ?_, ?_⟩
    · rw [hhead, hdepth]
      exact Nat.mod_lt _ hpos
    · rw [htail, hdepth]
      exact hwf.tail_lt
    · rw [hdepth]
      exact hwf.depth_le

theorem valid_copyReport (cq : LogicCq α) (para : ReportRecvInfo) (uncopied : ℕ) :
    (cq.copyReport para uncopied).2.valid = cq.valid := by
  rcases copyReport_result cq para uncopied with
    ⟨err, hcopy⟩ | ⟨start, cqes, cq', -, hcopy, -, -, -, -, hvalid⟩
  · rw [hcopy]
  · rw [hcopy]
    exact hvalid

end LogicCq

/-! ## Reachable queues -/

namespace CqWait

variable {s t : CqWait α} {para : ReportRecvInfo}

theorem recvCheck_queue (cq : LogicCq α) (para : ReportRecvInfo) (uncopied : ℕ) :
    (recvCheck cq para uncopied).2 = (cq.copyReport para uncopied).2 := by
  rw [recvCheck]
  split <;> simp_all

/-- Only a check and an enqueue change the queue. -/
theorem queue_of_step {a : WaitStep α} (hstep : s.step a = some t) :
    t.cq = s.cq ∨ (∃ para uncopied, t.cq = (s.cq.copyReport para uncopied).2) ∨
      ∃ c, t.cq = (s.cq.enque c).2 := by
  cases a with
  | recv para =>
      simp only [CqWait.step] at hstep
      split at hstep <;> obtain rfl := Option.some.inj hstep <;> exact .inl rfl
  | check i uncopied =>
      obtain ⟨r, -, -, rfl⟩ := withRecv_eq_some.mp hstep
      exact .inr (.inl ⟨r.para, uncopied, recvCheck_queue _ _ _⟩)
  | count | join | readNum | takeNum | expire | finish | finishExpired | uncount =>
      obtain ⟨r, -, -, rfl⟩ := withRecv_eq_some.mp hstep
      exact .inl rfl
  | enque c =>
      refine .inr (.inr ⟨c, ?_⟩)
      simp only [CqWait.step] at hstep
      split at hstep
      · next hcopy =>
          obtain rfl := Option.some.inj hstep
          rw [hcopy]
      · next hcopy =>
          obtain rfl := Option.some.inj hstep
          rw [hcopy]
  | readThreadNum | setNum | active | wake =>
      simp only [CqWait.step] at hstep
      split at hstep
      · obtain rfl := Option.some.inj hstep
        exact .inl rfl
      · simp at hstep

/-- A queue in use is well formed and valid. -/
theorem wf_of_reach (h : (machine α).Reach s) : s.cq.Wf ∧ s.cq.valid = true := by
  refine h.invariant (P := fun s => s.cq.Wf ∧ s.cq.valid = true) ?_ ?_
  · rintro s ⟨hvalid, hhead, htail, hpos, hdepth, -⟩
    exact ⟨⟨by omega, by omega, hdepth⟩, hvalid⟩
  · rintro s a t ⟨hwf, hvalid⟩ - hstep
    rcases queue_of_step hstep with hcq | ⟨para, uncopied, hcq⟩ | ⟨c, hcq⟩
    · rw [hcq]
      exact ⟨hwf, hvalid⟩
    · rw [hcq, LogicCq.valid_copyReport]
      exact ⟨hwf.copyReport para uncopied, hvalid⟩
    · rw [hcq, LogicCq.valid_enque]
      exact ⟨hwf.enque c, hvalid⟩

/-- In every reachable queue a receive keeps to the buffer of its caller exactly
when there is nothing to copy, or it is a version 1 receive, or the entries up
to the tail or the wrap are not more than it has asked for. -/
theorem recv_staysInBuffer_iff (s : CqWait α) (para : ReportRecvInfo)
    (h : (machine α).Reach s) (hnum : 0 < para.cqeNum) :
    s.cq.StaysInBuffer para ↔
      s.cq.isEmpty ∨ para.version = 1 ∨ s.cq.straight ≤ para.cqeNum := by
  obtain ⟨hwf, hvalid⟩ := wf_of_reach h
  rw [LogicCq.staysInBuffer_iff hwf hnum]
  simp [hvalid]

/-- The queue after three enqueues. -/
def threeQueued : CqWait LogicCqeV1 :=
  (machine LogicCqeV1).final newWait
    [.enque (cqeV1 0 0 0), .enque (cqeV1 0 0 1), .enque (cqeV1 0 0 2)]

theorem threeQueued_reach : (machine LogicCqeV1).Reach threeQueued :=
  Machine.Reach.final (.start ⟨rfl, rfl, rfl, by decide, by decide, rfl, rfl, rfl, rfl, rfl⟩)
    (by decide)

theorem recv_staysInBuffer_three : threeQueued.cq.StaysInBuffer ⟨0, 0, 3, 0, 0⟩ :=
  (recv_staysInBuffer_iff threeQueued ⟨0, 0, 3, 0, 0⟩ threeQueued_reach (by decide)).mpr
    (by decide)

/-- A request of the old version for one entry gets all three. -/
theorem recv_overruns_buffer : ∃ s : CqWait LogicCqeV1, (machine LogicCqeV1).Reach s ∧
    ∃ para : ReportRecvInfo, 0 < para.cqeNum ∧ ¬ s.cq.StaysInBuffer para := by
  refine ⟨threeQueued, threeQueued_reach, ⟨0, 0, 1, 0, 0⟩, by decide, ?_⟩
  intro h
  exact absurd (h.copied 0 3 rfl) (by decide)

end CqWait

/-! ## The loop of a receive -/

/-- What happens in and after one iteration of the loop of `trs_logic_cq_recv`:
the result of `copy_to_user`, whether a signal is pending, how a sleep ends
before the next wakeup, and what other receivers do before the next iteration. -/
structure RecvAround where
  uncopied : ℕ
  signal : Bool
  sleepEnd : Option Errno
  others : List (ReportRecvInfo × ℕ)
  taken : ℕ

inductive RecvExit
  | returned (ret : Except RecvErr Unit)
  /-- `schedule_timeout` until the next wakeup -/
  | asleep
  deriving DecidableEq

inductive RecvIter (α : Type)
  | exit (out : RecvExit)
  | again (cq : LogicCq α) (wakeupNum : ℤ)

/-- The condition `ret >= 0` of the loop: of the results only an error code is
negative. -/
def loopWhile (ret : Except RecvErr Unit) (cq : LogicCq α) (wakeupNum : ℤ) : RecvIter α :=
  match ret with
  | .error (.errno _) => .exit (.returned ret)
  | _ => .again cq wakeupNum

/-- `trs_logic_cq_wait_event`, for a positive number of jiffies -/
def waitEvent (around : RecvAround) (cq : LogicCq α) (wakeupNum : ℤ) : RecvIter α :=
  if wakeupNum > 0 then
    let ret := if around.signal then .error (.errno .ERESTARTSYS) else .ok ()
    loopWhile ret cq (wakeupNum - 1)
  else
    match around.sleepEnd with
    | some e => loopWhile (.error (.errno e)) cq wakeupNum
    | none => .exit .asleep

/-- One iteration of the loop of `trs_logic_cq_recv`. -/
def recvIter (para : ReportRecvInfo) (around : RecvAround) (cq : LogicCq α) (wakeupNum : ℤ) :
    RecvIter α :=
  match cq.copyReport para around.uncopied with
  | (.ok _, _) => .exit (.returned (.ok ()))
  | (.error (.errno .EAGAIN), cq) =>
      if para.timeout = 0 then .exit (.returned (.ok ())) else waitEvent around cq wakeupNum
  | (.error e, cq) => loopWhile (.error e) cq wakeupNum

/-- The receives of others; one that asks for nothing is refused. -/
def othersRecv (cq : LogicCq α) (others : List (ReportRecvInfo × ℕ)) : LogicCq α :=
  others.foldl (fun cq r => if r.1.cqeNum = 0 then cq else (cq.copyReport r.1 r.2).2) cq

/-- At most `n` iterations, from iteration `k` on. -/
def recvLoop (para : ReportRecvInfo) (around : ℕ → RecvAround) :
    (n k : ℕ) → LogicCq α → ℤ → Option RecvExit
  | 0, _, _, _ => none
  | n + 1, k, cq, wakeupNum =>
      match recvIter para (around k) cq wakeupNum with
      | .exit out => some out
      | .again cq wakeupNum =>
          recvLoop para around n (k + 1) (othersRecv cq (around k).others)
            (wakeupNum - (around k).taken)

/-- The caller of a receive: whether it owns the queue and has given an address,
and what the wait of a queue bound to an interrupt thread returns, if it is one. -/
structure RecvCall where
  hasRes : Bool
  cqeAddr : Bool
  bindIrq : Option (Except Errno Unit)

/-- `trs_logic_cq_recv` with at most `n` iterations of its loop -/
def recv (call : RecvCall) (para : ReportRecvInfo) (around : ℕ → RecvAround) (n : ℕ)
    (cq : LogicCq α) (wakeupNum : ℤ) : Option RecvExit :=
  if call.hasRes = false then some (.returned (.error (.errno .EINVAL)))
  else if (para.timeout < 0 ∧ para.timeout ≠ -1) ∨ para.cqeNum = 0 ∨ call.cqeAddr = false then
    some (.returned (.error (.errno .EINVAL)))
  else
    match call.bindIrq with
    | some ret => some (.returned (ret.mapError .errno))
    | none => recvLoop para around n 0 cq wakeupNum

/-- The queue that iteration `k` sees when no iteration before has taken an entry. -/
def seen (around : ℕ → RecvAround) (cq : LogicCq α) : ℕ → LogicCq α
  | 0 => cq
  | k + 1 => othersRecv (seen around cq k) (around k).others

/-- The receive enters its loop. -/
def Enters (call : RecvCall) (para : ReportRecvInfo) : Prop :=
  call.hasRes = true ∧ ¬ (para.timeout < 0 ∧ para.timeout ≠ -1) ∧ para.cqeNum ≠ 0 ∧
    call.cqeAddr = true ∧ call.bindIrq = none

/-- Between two events a receive ends with 0 or an error code, or sleeps; a
failed copy changes nothing. -/
structure Terminates (call : RecvCall) (para : ReportRecvInfo) (around : ℕ → RecvAround)
    (cq : LogicCq α) (wakeupNum : ℤ) : Prop where
  leaves : ∃ n out, recv call para around n cq wakeupNum = some out
  result : ∀ n ret, recv call para around n cq wakeupNum = some (.returned ret) →
    ret = .ok () ∨ ∃ e, ret = .error (.errno e)
  unchanged : ∀ k uncopied err, ((seen around cq k).copyReport para uncopied).1 = .error err →
    ((seen around cq k).copyReport para uncopied).2 = seen around cq k

section loop

open LogicCq

variable {para : ReportRecvInfo} {around : ℕ → RecvAround} {around₁ : RecvAround}
  {cq cq' : LogicCq α} {w w' : ℤ} {k n : ℕ} {ret : Except RecvErr Unit}

omit [LogicCqe α] in
theorem result_of_loopWhile {ret' : Except RecvErr Unit}
    (h : loopWhile ret cq w = .exit (.returned ret')) :
    ret' = .ok () ∨ ∃ e, ret' = .error (.errno e) := by
  unfold loopWhile at h
  split at h
  · simp only [RecvIter.exit.injEq, RecvExit.returned.injEq] at h
    exact .inr ⟨_, h.symm⟩
  · simp at h

omit [LogicCqe α] in
theorem queue_of_loopWhile (h : loopWhile ret cq w = .again cq' w') : cq' = cq ∧ w' = w := by
  unfold loopWhile at h
  split at h
  · simp at h
  · simp only [RecvIter.again.injEq] at h
    exact ⟨h.1.symm, h.2.symm⟩

omit [LogicCqe α] in
theorem result_of_waitEvent (h : waitEvent around₁ cq w = .exit (.returned ret)) :
    ret = .ok () ∨ ∃ e, ret = .error (.errno e) := by
  rw [waitEvent] at h
  split at h
  · exact result_of_loopWhile h
  · split at h
    · exact result_of_loopWhile h
    · simp at h

omit [LogicCqe α] in
/-- A wait that does not leave the loop has taken a wakeup. -/
theorem queue_of_waitEvent (h : waitEvent around₁ cq w = .again cq' w') :
    cq' = cq ∧ 0 < w ∧ w' = w - 1 := by
  rw [waitEvent] at h
  split at h
  · next hpos =>
      obtain ⟨hcq, hw⟩ := queue_of_loopWhile h
      exact ⟨hcq, hpos, hw⟩
  · split at h
    · simp [loopWhile] at h
    · simp at h

theorem result_of_recvIter (h : recvIter para around₁ cq w = .exit (.returned ret)) :
    ret = .ok () ∨ ∃ e, ret = .error (.errno e) := by
  rw [recvIter] at h
  split at h
  · simp only [RecvIter.exit.injEq, RecvExit.returned.injEq] at h
    exact .inl h.symm
  · split at h
    · simp only [RecvIter.exit.injEq, RecvExit.returned.injEq] at h
      exact .inl h.symm
    · exact result_of_waitEvent h
  · exact result_of_loopWhile h

/-- An iteration that does not leave the loop has changed nothing in the queue. -/
theorem queue_of_recvIter (h : recvIter para around₁ cq w = .again cq' w') : cq' = cq := by
  rcases copyReport_result cq para around₁.uncopied with
    ⟨err, hcopy⟩ | ⟨start, cqes, cq₁, -, hcopy, -⟩
  · rw [recvIter, hcopy] at h
    split at h
    · simp at h
    · next heq =>
        obtain rfl := (Prod.mk.inj heq).2
        split at h
        · simp at h
        · exact (queue_of_waitEvent h).1
    · next heq =>
        obtain rfl := (Prod.mk.inj heq).2
        exact (queue_of_loopWhile h).1
  · rw [recvIter, hcopy] at h
    simp at h

/-- A receive with something to report fails with the copy and ends without. -/
theorem recvIter_due (hwf : cq.Wf) (hvalid : cq.valid = true) (hnum : 0 < para.cqeNum)
    (hdue : cq.Due para) :
    recvIter para around₁ cq w =
      if around₁.uncopied = 0 then .exit (.returned (.ok ())) else .again cq w := by
  rcases copyReport_result cq para around₁.uncopied with
    ⟨err, herr⟩ | ⟨start, cqes, cq₁, -, hcopy, hzero, -⟩
  · rcases copyReport_cases hwf hvalid hnum around₁.uncopied with
      ⟨hnot, -⟩ | ⟨-, hfault, hcopy⟩ | ⟨cqes, cq', -, hcopy, -⟩
    · exact absurd hdue hnot
    · rw [recvIter, hcopy, if_neg hfault]
      rfl
    · simp [hcopy] at herr
  · rw [recvIter, hcopy, if_pos hzero]

/-- A receive with nothing to report waits unless its timeout is 0. -/
theorem recvIter_not_due (hwf : cq.Wf) (hvalid : cq.valid = true) (hnum : 0 < para.cqeNum)
    (hdue : ¬ cq.Due para) :
    recvIter para around₁ cq w =
      if para.timeout = 0 then .exit (.returned (.ok ())) else waitEvent around₁ cq w := by
  rcases copyReport_cases hwf hvalid hnum around₁.uncopied with
    ⟨-, hcopy⟩ | ⟨hnot, -⟩ | ⟨cqes, cq', hnot, -⟩
  · rw [recvIter, hcopy]
  · exact absurd hnot hdue
  · exact absurd hnot hdue

theorem othersRecv_keeps (hwf : cq.Wf) (others : List (ReportRecvInfo × ℕ))
    (hvalid : cq.valid = true) :
    (othersRecv cq others).Wf ∧ (othersRecv cq others).valid = true ∧
      (othersRecv cq others).content ⊆ cq.content := by
  induction others generalizing cq with
  | nil => exact ⟨hwf, hvalid, List.Subset.refl _⟩
  | cons r others ih =>
      by_cases hnum : r.1.cqeNum = 0
      · rw [othersRecv, List.foldl_cons, if_pos hnum]
        exact ih hwf hvalid
      · have hsub : (cq.copyReport r.1 r.2).2.content ⊆ cq.content := by
          rcases copyReport_cases hwf hvalid (Nat.pos_of_ne_zero hnum) r.2 with
            ⟨-, hcopy⟩ | ⟨-, -, hcopy⟩ | ⟨cqes, cq', -, hcopy, -, -, hsub⟩
          · rw [hcopy]
            exact List.Subset.refl _
          · rw [hcopy]
            exact List.Subset.refl _
          · rw [hcopy]
            exact hsub
        obtain ⟨hwf', hvalid', hsub'⟩ :=
          ih (hwf.copyReport r.1 r.2) ((valid_copyReport cq r.1 r.2).trans hvalid)
        rw [othersRecv, List.foldl_cons, if_neg hnum]
        exact ⟨hwf', hvalid', List.Subset.trans hsub' hsub⟩

theorem seen_keeps (hwf : cq.Wf) (hvalid : cq.valid = true) (around : ℕ → RecvAround) (k : ℕ) :
    (seen around cq k).Wf ∧ (seen around cq k).valid = true := by
  induction k with
  | zero => exact ⟨hwf, hvalid⟩
  | succ k ih =>
      obtain ⟨hwf', hvalid', -⟩ := othersRecv_keeps ih.1 (around k).others ih.2
      exact ⟨hwf', hvalid'⟩

/-- Between two events nothing becomes due. -/
theorem not_due_seen_succ (hwf : cq.Wf) (hvalid : cq.valid = true)
    (hdue : ¬ (seen around cq k).Due para) : ¬ (seen around cq (k + 1)).Due para := by
  obtain ⟨hwf', hvalid'⟩ := seen_keeps hwf hvalid around k
  intro h
  exact hdue (h.mono (othersRecv_keeps hwf' (around k).others hvalid').2.2)

/-- Without anything to report each further iteration takes a wakeup. -/
theorem recvLoop_not_due (hwf : cq.Wf) (hvalid : cq.valid = true) (hnum : 0 < para.cqeNum)
    (hdue : ¬ (seen around cq k).Due para) (w : ℤ) :
    ∃ n out, recvLoop para around n k (seen around cq k) w = some out := by
  induction hm : w.toNat using Nat.strong_induction_on generalizing w k with
  | _ m ih =>
      obtain ⟨hwf', hvalid'⟩ := seen_keeps hwf hvalid around k
      cases hiter : recvIter para (around k) (seen around cq k) w with
      | exit out =>
          refine ⟨1, out, ?_⟩
          rw [recvLoop, hiter]
      | again cq₁ w₁ =>
          obtain rfl := queue_of_recvIter hiter
          have hwait := hiter
          rw [recvIter_not_due hwf' hvalid' hnum hdue] at hwait
          split at hwait
          · simp at hwait
          · obtain ⟨-, hpos, rfl⟩ := queue_of_waitEvent hwait
            obtain ⟨n, out, hout⟩ := ih (w - 1 - (around k).taken).toNat (by omega)
              (not_due_seen_succ hwf hvalid hdue) _ rfl
            refine ⟨n + 1, out, ?_⟩
            rw [recvLoop, hiter]
            exact hout

/-- The loop ends at the latest with iteration `k + m`. -/
theorem recvLoop_leaves (hwf : cq.Wf) (hvalid : cq.valid = true) (hnum : 0 < para.cqeNum) (m : ℕ)
    (hend : ¬ (seen around cq (k + m)).Due para ∨ (around (k + m)).uncopied = 0) (w : ℤ) :
    ∃ n out, recvLoop para around n k (seen around cq k) w = some out := by
  induction m generalizing k w with
  | zero =>
      rw [Nat.add_zero] at hend
      obtain ⟨hwf', hvalid'⟩ := seen_keeps hwf hvalid around k
      by_cases hdue : (seen around cq k).Due para
      · have hzero := hend.resolve_left (not_not.mpr hdue)
        refine ⟨1, .returned (.ok ()), ?_⟩
        rw [recvLoop, recvIter_due hwf' hvalid' hnum hdue, if_pos hzero]
      · exact recvLoop_not_due hwf hvalid hnum hdue w
  | succ m ih =>
      cases hiter : recvIter para (around k) (seen around cq k) w with
      | exit out =>
          refine ⟨1, out, ?_⟩
          rw [recvLoop, hiter]
      | again cq₁ w₁ =>
          obtain rfl := queue_of_recvIter hiter
          obtain ⟨n, out, hout⟩ := ih (k := k + 1)
            (by rwa [show k + 1 + m = k + (m + 1) by omega]) (w₁ - (around k).taken)
          refine ⟨n + 1, out, ?_⟩
          rw [recvLoop, hiter]
          exact hout

/-- A copy that fails at every attempt keeps the receive in its loop. -/
theorem recvLoop_stuck (hwf : cq.Wf) (hvalid : cq.valid = true) (hnum : 0 < para.cqeNum)
    (hstuck : ∀ k, (seen around cq k).Due para ∧ (around k).uncopied ≠ 0) (n k : ℕ) (w : ℤ) :
    recvLoop para around n k (seen around cq k) w = none := by
  induction n generalizing k w with
  | zero => rfl
  | succ n ih =>
      obtain ⟨hwf', hvalid'⟩ := seen_keeps hwf hvalid around k
      rw [recvLoop, recvIter_due hwf' hvalid' hnum (hstuck k).1, if_neg (hstuck k).2]
      exact ih (k + 1) _

theorem recvLoop_result (h : recvLoop para around n k cq w = some (.returned ret)) :
    ret = .ok () ∨ ∃ e, ret = .error (.errno e) := by
  induction n generalizing k cq w with
  | zero => simp [recvLoop] at h
  | succ n ih =>
      rw [recvLoop] at h
      split at h
      · next hiter =>
          obtain rfl := Option.some.inj h
          exact result_of_recvIter hiter
      · exact ih h

theorem recv_eq_recvLoop {call : RecvCall} (henter : Enters call para) :
    recv call para around n cq w = recvLoop para around n 0 cq w := by
  obtain ⟨hres, htime, hnum, haddr, hbind⟩ := henter
  have hpara : ¬ ((para.timeout < 0 ∧ para.timeout ≠ -1) ∨ para.cqeNum = 0 ∨
      call.cqeAddr = false) := by
    rintro (h | h | h)
    · exact htime h
    · exact hnum h
    · simp [haddr] at h
  rw [recv, if_neg (by simp [hres]), if_neg hpara, hbind]

/-- A receive that does not enter its loop returns at once. -/
theorem recv_of_not_enters {call : RecvCall} (around : ℕ → RecvAround) (cq : LogicCq α) (w : ℤ)
    (henter : ¬ Enters call para) :
    ∃ ret, (ret = .ok () ∨ ∃ e, ret = .error (.errno e)) ∧
      ∀ n, recv call para around n cq w = some (.returned ret) := by
  by_cases hres : call.hasRes = false
  · refine ⟨.error (.errno .EINVAL), .inr ⟨_, rfl⟩, fun n => ?_⟩
    rw [recv, if_pos hres]
  by_cases hpara : (para.timeout < 0 ∧ para.timeout ≠ -1) ∨ para.cqeNum = 0 ∨ call.cqeAddr = false
  · refine ⟨.error (.errno .EINVAL), .inr ⟨_, rfl⟩, fun n => ?_⟩
    rw [recv, if_neg hres, if_pos hpara]
  cases hbind : call.bindIrq with
  | none =>
      push Not at hpara
      refine absurd ⟨by simpa using hres, ?_, hpara.2.1, by simpa using hpara.2.2, hbind⟩ henter
      rintro ⟨hneg, hne⟩
      exact hne (hpara.1 hneg)
  | some ret =>
      refine ⟨ret.mapError .errno, ?_, fun n => by rw [recv, if_neg hres, if_neg hpara, hbind]⟩
      cases ret with
      | ok => exact .inl rfl
      | error e => exact .inr ⟨e, rfl⟩

theorem result_of_recv {call : RecvCall}
    (h : recv call para around n cq w = some (.returned ret)) :
    ret = .ok () ∨ ∃ e, ret = .error (.errno e) := by
  by_cases henter : Enters call para
  · rw [recv_eq_recvLoop henter] at h
    exact recvLoop_result h
  · obtain ⟨ret', hret, hrecv⟩ := recv_of_not_enters around cq w henter
    rw [hrecv n] at h
    simp only [Option.some.injEq, RecvExit.returned.injEq] at h
    exact h ▸ hret

end loop

/-- In every reachable queue a receive ends between two events exactly when it
does not enter its loop, or one of its iterations finds nothing that it would
report, or the copy of one of them succeeds. -/
theorem recv_terminates_iff (s : CqWait α) (h : (CqWait.machine α).Reach s) (call : RecvCall)
    (para : ReportRecvInfo) (around : ℕ → RecvAround) :
    Terminates call para around s.cq s.wakeupNum ↔
      (Enters call para →
        ∃ k, ¬ (seen around s.cq k).Due para ∨ (around k).uncopied = 0) := by
  obtain ⟨hwf, hvalid⟩ := CqWait.wf_of_reach h
  constructor
  · intro hterm henter
    by_contra hnot
    push Not at hnot
    obtain ⟨n, out, hout⟩ := hterm.leaves
    rw [recv_eq_recvLoop henter] at hout
    have hstuck := recvLoop_stuck hwf hvalid (Nat.pos_of_ne_zero henter.2.2.1) hnot n 0 s.wakeupNum
    rw [seen, hout] at hstuck
    simp at hstuck
  · intro hcond
    refine ⟨?_, fun n ret hret => result_of_recv hret, ?_⟩
    · by_cases henter : Enters call para
      · obtain ⟨k, hend⟩ := hcond henter
        obtain ⟨n, out, hout⟩ := recvLoop_leaves (k := 0) hwf hvalid
          (Nat.pos_of_ne_zero henter.2.2.1) k (by rwa [Nat.zero_add]) s.wakeupNum
        exact ⟨n, out, by rw [recv_eq_recvLoop henter]; exact hout⟩
      · obtain ⟨ret, -, hrecv⟩ := recv_of_not_enters around s.cq s.wakeupNum henter
        exact ⟨0, _, hrecv 0⟩
    · intro k uncopied err herr
      rcases LogicCq.copyReport_result (seen around s.cq k) para uncopied with
        ⟨err', hcopy⟩ | ⟨start, cqes, cq', -, hcopy, -⟩
      · rw [hcopy]
      · simp [hcopy] at herr

/-- Every copy leaves some bytes. -/
def faulting : ℕ → RecvAround := fun _ => ⟨48, false, none, [], 0⟩

/-- The second copy succeeds. -/
def faultingOnce : ℕ → RecvAround := fun k => ⟨if k = 0 then 48 else 0, false, none, [], 0⟩

theorem recv_terminates_once :
    Terminates ⟨true, true, none⟩ ⟨0, 0, 4, 0, 1⟩ faultingOnce CqWait.threeQueued.cq
      CqWait.threeQueued.wakeupNum :=
  (recv_terminates_iff CqWait.threeQueued CqWait.threeQueued_reach ⟨true, true, none⟩
    ⟨0, 0, 4, 0, 1⟩ faultingOnce).mpr fun _ => ⟨1, .inr rfl⟩

/-- A receive whose buffer always faults never leaves its loop. -/
theorem recv_loops_forever : ∃ s : CqWait LogicCqeV1, (CqWait.machine LogicCqeV1).Reach s ∧
    ∃ call para around, ¬ Terminates call para around s.cq s.wakeupNum := by
  refine ⟨CqWait.threeQueued, CqWait.threeQueued_reach, ⟨true, true, none⟩, ⟨0, 0, 4, 0, 1⟩,
    faulting, ?_⟩
  intro hterm
  obtain ⟨hwf, hvalid⟩ := CqWait.wf_of_reach CqWait.threeQueued_reach
  have hseen : ∀ k, seen faulting CqWait.threeQueued.cq k = CqWait.threeQueued.cq := by
    intro k
    induction k with
    | zero => rfl
    | succ k ih => exact ih
  have hdue : CqWait.threeQueued.cq.Due ⟨0, 0, 4, 0, 1⟩ :=
    ⟨cqeV1 0 0 0, by decide, fun _ hforeign => absurd hforeign.1 (by decide)⟩
  have hstuck : ∀ k, (seen faulting CqWait.threeQueued.cq k).Due ⟨0, 0, 4, 0, 1⟩ ∧
      (faulting k).uncopied ≠ 0 := by
    intro k
    rw [hseen k]
    exact ⟨hdue, Nat.succ_ne_zero 47⟩
  obtain ⟨n, out, hout⟩ := hterm.leaves
  have henter : Enters ⟨true, true, none⟩ ⟨0, 0, 4, 0, 1⟩ := ⟨rfl, by decide, by decide, rfl, rfl⟩
  have hnone := recvLoop_stuck hwf hvalid (by decide) hstuck n 0 CqWait.threeQueued.wakeupNum
  rw [recv_eq_recvLoop henter] at hout
  rw [seen, hout] at hnone
  simp at hnone

end OpiaiKernel.Trs
