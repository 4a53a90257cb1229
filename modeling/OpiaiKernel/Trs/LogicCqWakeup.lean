import OpiaiKernel.Trs.LogicCqWait

/-!
# Lost wakeups of the logic completion queue

The wakeups that an enqueuer owes are counted in one number that any receiver
may consume, although an entry may be for one of them only.  A receiver that
still has to read the number can then find it used up and sleep on its entry.

Between enqueues the invariant compares the number with the receivers that need
it: those that have missed the queue, have not read the number, and have an
entry to report.  No receiver with an entry to report is asleep.
-/

namespace OpiaiKernel.Trs.CqWait

open LogicCq

variable {α : Type} [LogicCqe α] {s t : CqWait α} {i e : ℕ}

/-! ## Sets of receivers -/

section those

variable {rs : List Receiver} {r r' : Receiver} {P Q : Receiver → Prop} [DecidablePred P]
  [DecidablePred Q]

theorem mem_those : i ∈ those rs P ↔ ∃ r, rs[i]? = some r ∧ P r := by
  rw [those, Finset.mem_filter, Finset.mem_range]
  constructor
  · rintro ⟨-, r, hr, hP⟩
    exact ⟨r, hr, hP⟩
  · rintro ⟨r, hr, hP⟩
    exact ⟨(List.getElem?_eq_some_iff.mp hr).1, r, hr, hP⟩

theorem those_mono (h : ∀ r ∈ rs, P r → Q r) : those rs P ⊆ those rs Q := by
  intro j hj
  obtain ⟨r, hr, hP⟩ := mem_those.mp hj
  exact mem_those.mpr ⟨r, hr, h r (List.mem_of_getElem? hr) hP⟩

theorem eq_of_getElem?_set (h : (rs.set i r')[i]? = some r) : r' = r := by
  have hlt := (List.getElem?_eq_some_iff.mp h).1
  rw [List.length_set] at hlt
  rw [List.getElem?_set_self hlt] at h
  exact Option.some.inj h

theorem mem_those_set (hj : i ∈ those (rs.set e r') P) :
    (i = e ∧ P r') ∨ (i ≠ e ∧ i ∈ those rs P) := by
  obtain ⟨r, hr, hP⟩ := mem_those.mp hj
  rcases eq_or_ne i e with rfl | hne
  · obtain rfl := eq_of_getElem?_set hr
    exact .inl ⟨rfl, hP⟩
  · rw [List.getElem?_set_ne hne.symm] at hr
    exact .inr ⟨hne, mem_those.mpr ⟨r, hr, hP⟩⟩

theorem those_set_subset (hr : rs[i]? = some r) (h : P r' → P r) :
    those (rs.set i r') P ⊆ those rs P := by
  intro j hj
  rcases mem_those_set hj with ⟨rfl, hP⟩ | ⟨-, hmem⟩
  · exact mem_those.mpr ⟨r, hr, h hP⟩
  · exact hmem

theorem those_set_erase (h : ¬ P r') : those (rs.set i r') P ⊆ (those rs P).erase i := by
  intro j hj
  rcases mem_those_set hj with ⟨rfl, hP⟩ | ⟨hne, hmem⟩
  · exact absurd hP h
  · exact Finset.mem_erase.mpr ⟨hne, hmem⟩

theorem those_set_insert : those (rs.set i r') P ⊆ insert i (those rs P) := by
  intro j hj
  rcases mem_those_set hj with ⟨rfl, -⟩ | ⟨-, hmem⟩
  · exact Finset.mem_insert_self _ _
  · exact Finset.mem_insert_of_mem hmem

theorem those_concat (h : ¬ P r) : those (rs ++ [r]) P ⊆ those rs P := by
  intro j hj
  obtain ⟨r', hr', hP⟩ := mem_those.mp hj
  rcases Nat.lt_trichotomy j rs.length with hlt | rfl | hgt
  · rw [List.getElem?_append_left hlt] at hr'
    exact mem_those.mpr ⟨r', hr', hP⟩
  · rw [List.getElem?_concat_length] at hr'
    exact absurd (Option.some.inj hr' ▸ hP) h
  · rw [List.getElem?_eq_none (by simp; omega)] at hr'
    simp at hr'

end those

/-! ## Receives -/

theorem wouldReport_iff {cq : LogicCq α} (hwf : cq.Wf) (hvalid : cq.valid = true)
    {para : ReportRecvInfo} (hnum : 0 < para.cqeNum) : WouldReport cq para ↔ cq.Due para := by
  rcases copyReport_cases hwf hvalid hnum 0 with
    ⟨hdue, hcopy⟩ | ⟨-, hfault, -⟩ | ⟨cqes, cq', hdue, hcopy, -⟩
  · simp [WouldReport, hcopy, hdue]
  · exact absurd rfl hfault
  · simp [WouldReport, hcopy, hdue]

/-- A check of the queue keeps it well formed and makes no entry due, and a
receiver that misses has none. -/
theorem recvCheck_spec {cq : LogicCq α} (hwf : cq.Wf) (hvalid : cq.valid = true)
    {para : ReportRecvInfo} (hnum : 0 < para.cqeNum) (uncopied : ℕ) :
    (recvCheck cq para uncopied).2.Wf ∧ (recvCheck cq para uncopied).2.valid = true ∧
      (∀ para' : ReportRecvInfo, 0 < para'.cqeNum →
        WouldReport (recvCheck cq para uncopied).2 para' → WouldReport cq para') ∧
      ((recvCheck cq para uncopied).1 = .out ∨ (recvCheck cq para uncopied).1 = .checking ∨
        (recvCheck cq para uncopied).1 = .missed ∧
          ¬ WouldReport (recvCheck cq para uncopied).2 para) := by
  rcases copyReport_cases hwf hvalid hnum uncopied with
    ⟨hdue, hcopy⟩ | ⟨-, -, hcopy⟩ | ⟨cqes, cq', -, hcopy, hwf', hvalid', hsub⟩
  · rw [← wouldReport_iff hwf hvalid hnum] at hdue
    have hcheck : recvCheck cq para uncopied = (if para.timeout = 0 then .out else .missed, cq) := by
      rw [recvCheck, hcopy]
    rw [hcheck]
    refine ⟨hwf, hvalid, fun _ _ h => h, ?_⟩
    dsimp only
    split
    · exact .inl rfl
    · exact .inr (.inr ⟨rfl, hdue⟩)
  · have hcheck : recvCheck cq para uncopied = (.checking, cq) := by
      rw [recvCheck, hcopy]
    rw [hcheck]
    exact ⟨hwf, hvalid, fun _ _ h => h, .inr (.inl rfl)⟩
  · have hcheck : recvCheck cq para uncopied = (.out, cq') := by
      rw [recvCheck, hcopy]
    rw [hcheck]
    refine ⟨hwf', hvalid', ?_, .inl rfl⟩
    intro para' hnum' hwould
    rw [wouldReport_iff hwf' hvalid' hnum'] at hwould
    exact (wouldReport_iff hwf hvalid hnum').mpr (hwould.mono hsub)

/-! ## The invariant -/

/-- No sleeper has an entry to report, and the tokens suffice for those that
still look for one. -/
structure Settled (s : CqWait α) : Prop where
  none_asleep : s.dueAsleep = ∅
  tokens : (s.dueWindow.card + s.takers.card : ℤ) ≤ s.wakeupNum

/-- The phases between joining and leaving the wait queue. -/
def inQueue : WaitPhase → Bool
  | .joined | .taking | .asleep | .awake | .expired => true
  | _ => false

structure WaitInv (s : CqWait α) : Prop where
  wf : s.cq.Wf
  valid : s.cq.valid = true
  para_ok : ∀ r ∈ s.receivers, 0 < r.para.cqeNum
  nodup : s.waitQueue.Nodup
  member : ∀ i ∈ s.waitQueue, ∃ r, s.receivers[i]? = some r ∧ inQueue r.phase = true
  queued : ∀ i r, s.receivers[i]? = some r →
    (r.phase = .asleep ∨ (r.phase = .joined ∧ r.woken = false)) → i ∈ s.waitQueue
  settled : s.Quiet → s.Settled

theorem Settled.of_subset (h : s.Settled) (hasleep : t.dueAsleep ⊆ s.dueAsleep)
    (hwindow : t.dueWindow ⊆ s.dueWindow) (htakers : t.takers ⊆ s.takers)
    (hnum : t.wakeupNum = s.wakeupNum) : t.Settled where
  none_asleep := Finset.subset_empty.mp (h.none_asleep ▸ hasleep)
  tokens := by
    have htokens := h.tokens
    have hw := Finset.card_le_card hwindow
    have ht := Finset.card_le_card htakers
    rw [hnum]
    omega

omit [LogicCqe α] in
theorem withRecv_eq_some {p : WaitPhase} {f : Receiver → CqWait α} :
    s.withRecv i p f = some t ↔ ∃ r, s.receivers[i]? = some r ∧ r.phase = p ∧ f r = t := by
  rw [withRecv]
  cases hr : s.receivers[i]? with
  | none => simp
  | some r =>
      by_cases hp : r.phase = p
      · simp [hp]
      · simp [hp]

/-- Receiver `i` moves on from `r` to `r'`, without falling asleep or taking a
token; nothing else changes but that entries and waiters may go. -/
structure Moves (s t : CqWait α) (i : ℕ) (r r' : Receiver) : Prop where
  at_i : s.receivers[i]? = some r
  receivers : t.receivers = s.receivers.set i r'
  enques : t.enques = s.enques
  wakeupNum : t.wakeupNum = s.wakeupNum
  wf : t.cq.Wf
  valid : t.cq.valid = true
  due : ∀ para : ReportRecvInfo, 0 < para.cqeNum → WouldReport t.cq para → WouldReport s.cq para
  para : r'.para = r.para
  asleep : r'.phase ≠ .asleep
  taking : r'.phase ≠ .taking
  window : InWindow r' → InWindow r ∨ ¬ WouldReport t.cq r.para
  queue : ∀ j, j ≠ i → (j ∈ t.waitQueue ↔ j ∈ s.waitQueue)
  nodup : t.waitQueue.Nodup
  queued : r'.phase = .joined → i ∈ t.waitQueue
  member : i ∈ t.waitQueue → inQueue r'.phase = true

theorem WaitInv.para_ok_set (h : WaitInv s) {r r' : Receiver} (hr : s.receivers[i]? = some r)
    (hpara : r'.para = r.para) : ∀ q ∈ s.receivers.set i r', 0 < q.para.cqeNum := by
  intro q hq
  rcases List.mem_or_eq_of_mem_set hq with hq | rfl
  · exact h.para_ok q hq
  · rw [hpara]
    exact h.para_ok r (List.mem_of_getElem? hr)

theorem WaitInv.member_set (h : WaitInv s) {r r' : Receiver} (hr : s.receivers[i]? = some r)
    {queue : List ℕ} (hqueue : ∀ j, j ≠ i → j ∈ queue → j ∈ s.waitQueue)
    (hi : i ∈ queue → inQueue r'.phase = true) :
    ∀ j ∈ queue, ∃ q, (s.receivers.set i r')[j]? = some q ∧ inQueue q.phase = true := by
  intro j hj
  rcases eq_or_ne i j with rfl | hne
  · exact ⟨r', List.getElem?_set_self (List.getElem?_eq_some_iff.mp hr).1, hi hj⟩
  · rw [List.getElem?_set_ne hne]
    exact h.member j (hqueue j hne.symm hj)

/-- A receiver outside the wait queue's phases is not in it. -/
theorem WaitInv.not_mem (h : WaitInv s) {r : Receiver} (hr : s.receivers[i]? = some r)
    (hphase : inQueue r.phase = false) : i ∉ s.waitQueue := by
  intro hi
  obtain ⟨q, hq, hin⟩ := h.member i hi
  rw [hr] at hq
  obtain rfl := Option.some.inj hq
  simp [hphase] at hin

theorem WaitInv.queued_set (h : WaitInv s) {r' : Receiver} {queue : List ℕ}
    (hqueue : ∀ j ∈ s.waitQueue, j ≠ i → j ∈ queue)
    (hi : (r'.phase = .asleep ∨ (r'.phase = .joined ∧ r'.woken = false)) → i ∈ queue) :
    ∀ j q, (s.receivers.set i r')[j]? = some q →
      (q.phase = .asleep ∨ (q.phase = .joined ∧ q.woken = false)) → j ∈ queue := by
  intro j q hq hphase
  rcases eq_or_ne i j with rfl | hne
  · obtain rfl := eq_of_getElem?_set hq
    exact hi hphase
  · rw [List.getElem?_set_ne hne] at hq
    exact hqueue j (h.queued j q hq hphase) hne.symm

theorem WaitInv.moves (h : WaitInv s) {r r' : Receiver} (hm : Moves s t i r r') : WaitInv t where
  wf := hm.wf
  valid := hm.valid
  para_ok := by
    rw [hm.receivers]
    exact h.para_ok_set hm.at_i hm.para
  queued := by
    rw [hm.receivers]
    refine h.queued_set (fun j hj hne => (hm.queue j hne).mpr hj) fun hphase => ?_
    exact hm.queued (hphase.resolve_left hm.asleep).1
  nodup := hm.nodup
  member := by
    rw [hm.receivers]
    exact h.member_set hm.at_i (fun j hne hj => (hm.queue j hne).mp hj) hm.member
  settled := by
    intro hquiet
    rw [Quiet, hm.enques] at hquiet
    have hsettled := h.settled hquiet
    have hok : ∀ q ∈ s.receivers.set i r', 0 < q.para.cqeNum := h.para_ok_set hm.at_i hm.para
    refine hsettled.of_subset ?_ ?_ ?_ hm.wakeupNum
    · rw [dueAsleep, dueAsleep, hm.receivers]
      refine (those_mono fun q hq hdue => ?_).trans
        (those_set_subset hm.at_i fun hdue => absurd hdue.1 hm.asleep)
      exact ⟨hdue.1, hm.due _ (hok q hq) hdue.2⟩
    · rw [dueWindow, dueWindow, hm.receivers]
      have hnum := h.para_ok r (List.mem_of_getElem? hm.at_i)
      intro j hj
      rcases mem_those_set hj with ⟨rfl, hwin, hwould⟩ | ⟨-, hmem⟩
      · rw [hm.para] at hwould
        have hr := (hm.window hwin).resolve_right fun hnot => hnot hwould
        exact mem_those.mpr ⟨r, hm.at_i, hr, hm.due _ hnum hwould⟩
      · refine those_mono (fun q hq hdue => ?_) hmem
        exact ⟨hdue.1, hm.due _ (h.para_ok q hq) hdue.2⟩
    · rw [takers, takers, hm.receivers]
      exact those_set_subset hm.at_i fun htaking => absurd htaking hm.taking

/-! ## Receiver steps -/

theorem WaitInv.recv (h : WaitInv s) {para : ReportRecvInfo} (hnum : 0 < para.cqeNum) :
    WaitInv { s with receivers := s.receivers ++ [⟨para, .checking, false⟩] } where
  wf := h.wf
  valid := h.valid
  para_ok := by
    intro q hq
    rcases List.mem_append.mp hq with hq | hq
    · exact h.para_ok q hq
    · exact List.mem_singleton.mp hq ▸ hnum
  queued := by
    intro j q hq hphase
    rcases Nat.lt_trichotomy j s.receivers.length with hlt | rfl | hgt
    · rw [List.getElem?_append_left hlt] at hq
      exact h.queued j q hq hphase
    · rw [List.getElem?_concat_length] at hq
      obtain rfl := Option.some.inj hq
      simp at hphase
    · rw [List.getElem?_eq_none (by simp; omega)] at hq
      simp at hq
  nodup := h.nodup
  member := by
    intro j hj
    obtain ⟨q, hq, hin⟩ := h.member j hj
    exact ⟨q, by rw [List.getElem?_append_left (List.getElem?_eq_some_iff.mp hq).1, hq], hin⟩
  settled := by
    intro hquiet
    apply (h.settled hquiet).of_subset
    · exact those_concat (by simp)
    · exact those_concat (by simp [InWindow])
    · exact those_concat (by simp)
    · rfl

theorem WaitInv.check (h : WaitInv s) {r : Receiver} (hr : s.receivers[i]? = some r)
    (hphase : r.phase = .checking) (uncopied : ℕ) :
    WaitInv { s.setRecv i { r with phase := (recvCheck s.cq r.para uncopied).1 } with
      cq := (recvCheck s.cq r.para uncopied).2 } := by
  have hnum := h.para_ok r (List.mem_of_getElem? hr)
  obtain ⟨hwf, hvalid, hdue, hnext⟩ := recvCheck_spec h.wf h.valid hnum uncopied
  refine h.moves (r := r) ⟨hr, rfl, rfl, rfl, hwf, hvalid, hdue, rfl, ?_, ?_, ?_, ?_, ?_, ?_, ?_⟩
  · rcases hnext with hn | hn | ⟨hn, -⟩ <;> simp [hn]
  · rcases hnext with hn | hn | ⟨hn, -⟩ <;> simp [hn]
  · rcases hnext with hn | hn | ⟨-, hnot⟩
    · simp [InWindow, hn]
    · simp [InWindow, hn]
    · exact fun _ => .inr hnot
  · exact fun _ _ => .rfl
  · exact h.nodup
  · rcases hnext with hn | hn | ⟨hn, -⟩ <;> simp [hn]
  · exact fun hi => absurd hi (h.not_mem hr (by rw [hphase]; rfl))

theorem WaitInv.readNum (h : WaitInv s) {r : Receiver} (hr : s.receivers[i]? = some r)
    (hphase : r.phase = .joined)
    (hcov : s.Quiet → s.wakeupNum > 0 → i ∉ s.dueWindow →
      (s.dueWindow.card + s.takers.card + 1 : ℤ) ≤ s.wakeupNum) :
    WaitInv (s.setRecv i { r with
      phase := if s.wakeupNum > 0 then .taking else if r.woken then .awake else .asleep }) where
  wf := h.wf
  valid := h.valid
  para_ok := h.para_ok_set hr rfl
  queued := by
    refine h.queued_set (fun j hj _ => hj) fun hcase => ?_
    apply h.queued i r hr
    dsimp only at hcase
    split at hcase
    · simp at hcase
    · split at hcase
      · simp at hcase
      · next hwoken => exact .inr ⟨hphase, by simpa using hwoken⟩
  nodup := h.nodup
  member := h.member_set hr (fun j _ hj => hj) fun _ => by
    dsimp only
    split
    · rfl
    · split <;> rfl
  settled := by
    intro hquiet
    have hs := h.settled hquiet
    have hwindow : ∀ p, ¬ InWindow { r with phase := p } →
        (s.setRecv i { r with phase := p }).dueWindow ⊆ s.dueWindow.erase i :=
      fun p hp => those_set_erase fun hdue => hp hdue.1
    by_cases hpos : s.wakeupNum > 0
    · -- a token is taken, by a receiver that needs it or with one to spare
      rw [if_pos hpos]
      have hw := Finset.card_le_card (hwindow .taking (by simp [InWindow]))
      have ht : (s.setRecv i { r with phase := .taking }).takers ⊆ insert i s.takers :=
        those_set_insert
      have ht := (Finset.card_le_card ht).trans (Finset.card_insert_le i s.takers)
      have htokens := hs.tokens
      refine ⟨?_, ?_⟩
      · refine Finset.subset_empty.mp (hs.none_asleep ▸ ?_)
        exact those_set_subset hr (by simp)
      · change _ ≤ s.wakeupNum
        by_cases hmem : i ∈ s.dueWindow
        · rw [Finset.card_erase_of_mem hmem] at hw
          have hone := Finset.card_pos.mpr ⟨i, hmem⟩
          omega
        · have hspare := hcov hquiet hpos hmem
          rw [Finset.erase_eq_of_notMem hmem] at hw
          omega
    · -- without tokens nobody in the window has an entry to report
      rw [if_neg hpos]
      have htokens := hs.tokens
      have hempty : s.dueWindow = ∅ := Finset.card_eq_zero.mp (by omega)
      have hnot : r.woken = false → ¬ WouldReport s.cq r.para := by
        intro hwoken hwould
        have hmem : i ∈ s.dueWindow :=
          mem_those.mpr ⟨r, hr, .inr (.inr ⟨hphase, hwoken⟩), hwould⟩
        rw [hempty] at hmem
        simp at hmem
      refine hs.of_subset ?_ ?_ ?_ rfl
      · refine those_set_subset hr ?_
        rintro ⟨hasleep, hwould⟩
        split at hasleep
        · simp at hasleep
        · next hwoken => exact absurd hwould (hnot (by simpa using hwoken))
      · refine (hwindow _ ?_).trans (Finset.erase_subset _ _)
        split <;> simp [InWindow]
      · refine those_set_subset hr ?_
        split <;> simp

theorem WaitInv.takeNum (h : WaitInv s) {r : Receiver} (hr : s.receivers[i]? = some r)
    (hphase : r.phase = .taking) :
    WaitInv { s.setRecv i { r with phase := .awake } with wakeupNum := s.wakeupNum - 1 } where
  wf := h.wf
  valid := h.valid
  para_ok := h.para_ok_set hr rfl
  queued := h.queued_set (fun j hj _ => hj) (by simp)
  nodup := h.nodup
  member := h.member_set hr (fun j _ hj => hj) fun _ => rfl
  settled := by
    intro hquiet
    have hs := h.settled hquiet
    have htokens := hs.tokens
    have hmem : i ∈ s.takers := mem_those.mpr ⟨r, hr, hphase⟩
    refine ⟨?_, ?_⟩
    · refine Finset.subset_empty.mp (hs.none_asleep ▸ ?_)
      exact those_set_subset hr (by simp)
    · have hw : (s.setRecv i { r with phase := .awake }).dueWindow ⊆ s.dueWindow :=
        those_set_subset hr (by simp [InWindow])
      have ht : (s.setRecv i { r with phase := .awake }).takers ⊆ s.takers.erase i :=
        those_set_erase (by simp)
      have hw := Finset.card_le_card hw
      have ht := Finset.card_le_card ht
      rw [Finset.card_erase_of_mem hmem] at ht
      have hone := Finset.card_pos.mpr ⟨i, hmem⟩
      change ((s.setRecv i { r with phase := .awake }).dueWindow.card +
        (s.setRecv i { r with phase := .awake }).takers.card : ℤ) ≤ s.wakeupNum - 1
      omega

theorem WaitInv.leaveQueue (h : WaitInv s) {r : Receiver} (hr : s.receivers[i]? = some r)
    (p : WaitPhase) (hasleep : p ≠ .asleep) (htaking : p ≠ .taking) (hjoined : p ≠ .joined)
    (hwindow : ¬ InWindow { r with phase := p }) :
    WaitInv { s.setRecv i { r with phase := p } with waitQueue := s.waitQueue.erase i } := by
  refine h.moves ⟨hr, rfl, rfl, rfl, h.wf, h.valid, fun _ _ h => h, rfl, hasleep, htaking,
    fun hwin => absurd hwin hwindow, ?_, h.nodup.erase i, fun hp => absurd hp hjoined, ?_⟩
  · exact fun j hne => List.mem_erase_of_ne hne
  · exact fun hi => absurd hi (h.nodup.not_mem_erase)

/-! ## Enqueuer steps -/

/-- An enqueuer changes its own phase and the counters only. -/
theorem WaitInv.enq (h : WaitInv s) (hcq : t.cq = s.cq) (hrecv : t.receivers = s.receivers)
    (hqueue : t.waitQueue = s.waitQueue) (hsettled : t.Quiet → t.Settled) : WaitInv t where
  wf := hcq ▸ h.wf
  valid := hcq ▸ h.valid
  para_ok := hrecv ▸ h.para_ok
  queued := by
    rw [hrecv, hqueue]
    exact h.queued
  nodup := hqueue ▸ h.nodup
  member := by
    rw [hrecv, hqueue]
    exact h.member
  settled := hsettled

omit [LogicCqe α] in
theorem not_quiet_setEnq {p q : EnqPhase} (he : s.enques[e]? = some q) (hp : p ≠ .done) :
    ¬ (s.setEnq e p).Quiet := by
  intro hquiet
  have hlt := (List.getElem?_eq_some_iff.mp he).1
  exact hp (hquiet p (List.mem_set hlt p))

theorem WaitInv.active (h : WaitInv s) (hempty : s.waitQueue = [])
    (hcov : s.QuietBut e → (s.dueWindow.card + s.takers.card : ℤ) ≤ s.wakeupNum) :
    WaitInv (s.setEnq e .done) := by
  refine h.enq rfl rfl rfl fun hquiet => ⟨?_, hcov hquiet⟩
  -- a sleeper would be in the wait queue
  apply Finset.eq_empty_of_forall_notMem
  intro i hi
  obtain ⟨r, hr, hasleep, -⟩ := mem_those.mp hi
  have hmem := h.queued i r hr (.inl hasleep)
  rw [hempty] at hmem
  simp at hmem

omit [LogicCqe α] in
theorem getElem?_wakeUpNr {n : ℤ} {q : Receiver} (hq : (s.wakeUpNr n).receivers[i]? = some q) :
    ∃ r, s.receivers[i]? = some r ∧
      ((i ∈ s.wokenBy n ∧ q = r.wake) ∨ (i ∉ s.wokenBy n ∧ q = r)) := by
  simp only [wakeUpNr, List.getElem?_mapIdx, Option.map_eq_some_iff] at hq
  obtain ⟨r, hr, rfl⟩ := hq
  refine ⟨r, hr, ?_⟩
  by_cases hmem : i ∈ s.wokenBy n
  · exact .inl ⟨hmem, if_pos hmem⟩
  · exact .inr ⟨hmem, if_neg hmem⟩

omit [LogicCqe α] in
theorem mem_waitQueue_of_wokenBy {n : ℤ} (hi : i ∈ s.wokenBy n) : i ∈ s.waitQueue :=
  (List.mem_filter.mp (List.mem_of_mem_take hi)).1

theorem wake_phase (r : Receiver) :
    r.wake.phase ≠ .asleep ∧ (r.wake.phase = .awake ∨ r.wake.phase = r.phase) := by
  by_cases hasleep : r.phase = .asleep
  · simp [Receiver.wake, hasleep]
  · simp [Receiver.wake, hasleep]

theorem inQueue_wake {r : Receiver} (hin : inQueue r.phase = true) :
    inQueue r.wake.phase = true := by
  rcases (wake_phase r).2 with hp | hp
  · rw [hp]
    rfl
  · rwa [hp]

theorem WaitInv.wake (h : WaitInv s) {n : ℤ}
    (hcov : s.QuietBut e → (∀ i ∈ s.dueAsleep, i ∈ s.wokenBy n) ∧
      ((s.dueWindow \ (s.wokenBy n).toFinset).card + s.takers.card : ℤ) ≤ s.wakeupNum) :
    WaitInv ((s.wakeUpNr n).setEnq e .done) where
  wf := h.wf
  valid := h.valid
  para_ok := by
    intro q hq
    obtain ⟨i, hi⟩ := List.mem_iff_getElem?.mp hq
    obtain ⟨r, hr, ⟨-, rfl⟩ | ⟨-, rfl⟩⟩ := getElem?_wakeUpNr hi
    · exact h.para_ok r (List.mem_of_getElem? hr)
    · exact h.para_ok q (List.mem_of_getElem? hr)
  nodup := h.nodup.filter _
  member := by
    intro i hi
    obtain ⟨hi, hnot⟩ := List.mem_filter.mp hi
    obtain ⟨r, hr, hin⟩ := h.member i hi
    refine ⟨r, ?_, hin⟩
    have hnot : i ∉ s.wokenBy n := by simpa using hnot
    simp [wakeUpNr, setEnq, List.getElem?_mapIdx, hr, hnot]
  queued := by
    intro i q hq hphase
    obtain ⟨r, hr, ⟨-, rfl⟩ | ⟨hnot, rfl⟩⟩ := getElem?_wakeUpNr hq
    · rcases hphase with hp | ⟨-, hwoken⟩
      · exact absurd hp (wake_phase r).1
      · simp [Receiver.wake] at hwoken
    · exact List.mem_filter.mpr ⟨h.queued i q hr hphase, by simpa using hnot⟩
  settled := by
    intro hquiet
    obtain ⟨hasleep, htokens⟩ := hcov hquiet
    have hw : ((s.wakeUpNr n).setEnq e .done).dueWindow ⊆
        s.dueWindow \ (s.wokenBy n).toFinset := by
      intro i hi
      obtain ⟨q, hq, hwin, hwould⟩ := mem_those.mp hi
      obtain ⟨r, hr, ⟨hmem, rfl⟩ | ⟨hnot, rfl⟩⟩ := getElem?_wakeUpNr hq
      · -- a woken waiter has joined the queue
        obtain ⟨r', hr', hin⟩ := h.member i (mem_waitQueue_of_wokenBy hmem)
        rw [hr] at hr'
        obtain rfl := Option.some.inj hr'
        have hin' := inQueue_wake hin
        rcases hwin with hp | hp | ⟨-, hwoken⟩
        · simp [hp, inQueue] at hin'
        · simp [hp, inQueue] at hin'
        · simp [Receiver.wake] at hwoken
      · refine Finset.mem_sdiff.mpr ⟨mem_those.mpr ⟨q, hr, hwin, hwould⟩, ?_⟩
        simpa using hnot
    have ht : ((s.wakeUpNr n).setEnq e .done).takers ⊆ s.takers := by
      intro i hi
      obtain ⟨q, hq, hp⟩ := mem_those.mp hi
      obtain ⟨r, hr, ⟨-, rfl⟩ | ⟨-, rfl⟩⟩ := getElem?_wakeUpNr hq
      · rcases (wake_phase r).2 with hp' | hp'
        · simp [hp'] at hp
        · exact mem_those.mpr ⟨r, hr, hp'.symm.trans hp⟩
      · exact mem_those.mpr ⟨q, hr, hp⟩
    refine ⟨?_, ?_⟩
    · apply Finset.eq_empty_of_forall_notMem
      intro i hi
      obtain ⟨q, hq, hp, hwould⟩ := mem_those.mp hi
      obtain ⟨r, hr, ⟨-, rfl⟩ | ⟨hnot, rfl⟩⟩ := getElem?_wakeUpNr hq
      · exact (wake_phase r).1 hp
      · exact hnot (hasleep i (mem_those.mpr ⟨q, hr, hp, hwould⟩))
    · have hw := Finset.card_le_card hw
      have ht := Finset.card_le_card ht
      change _ ≤ s.wakeupNum
      omega

/-! ## Runs -/

theorem waitInv_init (hs : (machine α).init s) : WaitInv s := by
  obtain ⟨hvalid, hhead, htail, hpos, hdepth, hnum, -, hqueue, hrecv, -⟩ := hs
  constructor
  · exact ⟨by omega, by omega, hdepth⟩
  · exact hvalid
  · simp [hrecv]
  · simp [hqueue]
  · simp [hqueue]
  · simp [hrecv]
  · intro _
    constructor
    · simp [dueAsleep, those, hrecv]
    · simp [dueWindow, takers, those, hrecv, hnum]

theorem WaitInv.enque (h : WaitInv s) (c : α) (hstep : s.step (.enque c) = some t) :
    WaitInv t := by
  have hwf := h.wf.enque c
  have hvalid := (valid_enque s.cq c).trans h.valid
  simp only [step] at hstep
  split at hstep
  · next cq hcq =>
      rw [hcq] at hwf hvalid
      obtain rfl := Option.some.inj hstep
      refine ⟨hwf, hvalid, h.para_ok, h.nodup, h.member, h.queued, fun hquiet => ?_⟩
      simpa using hquiet .published (by simp)
  · next e cq hcq =>
      have hsame : cq = s.cq := by
        rw [LogicCq.enque] at hcq
        split at hcq
        · exact (congrArg Prod.snd hcq).symm
        · split at hcq
          · exact (congrArg Prod.snd hcq).symm
          · simp at hcq
      obtain rfl := Option.some.inj hstep
      rw [hsame]
      exact h

theorem WaitInv.step (h : WaitInv s) {a : WaitStep α} (hcov : s.Covered a)
    (hstep : s.step a = some t) : WaitInv t := by
  cases a with
  | recv para =>
      simp only [CqWait.step] at hstep
      split at hstep <;> obtain rfl := Option.some.inj hstep
      · exact h
      · next hpara => exact h.recv (by omega)
  | check i uncopied =>
      obtain ⟨r, hr, hp, rfl⟩ := withRecv_eq_some.mp hstep
      exact h.check hr hp uncopied
  | count i =>
      obtain ⟨r, hr, hp, rfl⟩ := withRecv_eq_some.mp hstep
      have hnot := h.not_mem hr (by rw [hp]; rfl)
      exact h.moves ⟨hr, rfl, rfl, rfl, h.wf, h.valid, fun _ _ h => h, rfl, by simp, by simp,
        fun _ => .inl (.inl hp), fun _ _ => .rfl, h.nodup, by simp, fun hi => absurd hi hnot⟩
  | join i =>
      obtain ⟨r, hr, hp, rfl⟩ := withRecv_eq_some.mp hstep
      have hnot := h.not_mem hr (by rw [hp]; rfl)
      refine h.moves ⟨hr, rfl, rfl, rfl, h.wf, h.valid, fun _ _ h => h, rfl, by simp, by simp,
        fun _ => .inl (.inr (.inl hp)), fun j hne => by simp [hne], ?_, by simp, fun _ => rfl⟩
      refine List.nodup_append.mpr ⟨h.nodup, by simp, ?_⟩
      intro j hj b hb heq
      rw [heq, List.mem_singleton.mp hb] at hj
      exact hnot hj
  | readNum i =>
      obtain ⟨r, hr, hp, rfl⟩ := withRecv_eq_some.mp hstep
      exact h.readNum hr hp hcov
  | takeNum i =>
      obtain ⟨r, hr, hp, rfl⟩ := withRecv_eq_some.mp hstep
      exact h.takeNum hr hp
  | expire i =>
      obtain ⟨r, hr, hp, rfl⟩ := withRecv_eq_some.mp hstep
      exact h.moves ⟨hr, rfl, rfl, rfl, h.wf, h.valid, fun _ _ h => h, rfl, by simp, by simp,
        by simp [InWindow], fun _ _ => .rfl, h.nodup, by simp, fun _ => rfl⟩
  | finish i leave =>
      obtain ⟨r, hr, hp, rfl⟩ := withRecv_eq_some.mp hstep
      exact h.leaveQueue hr (.finished leave) (by simp) (by simp) (by simp) (by simp [InWindow])
  | finishExpired i =>
      obtain ⟨r, hr, hp, rfl⟩ := withRecv_eq_some.mp hstep
      exact h.leaveQueue hr (.finished true) (by simp) (by simp) (by simp) (by simp [InWindow])
  | uncount i leave =>
      obtain ⟨r, hr, hp, rfl⟩ := withRecv_eq_some.mp hstep
      have hnot := h.not_mem hr (by rw [hp]; rfl)
      cases leave <;>
        exact h.moves ⟨hr, rfl, rfl, rfl, h.wf, h.valid, fun _ _ h => h, rfl, by simp, by simp,
          by simp [InWindow], fun _ _ => .rfl, h.nodup, by simp, fun hi => absurd hi hnot⟩
  | enque c => exact h.enque c hstep
  | readThreadNum e =>
      simp only [CqWait.step] at hstep
      split at hstep
      · next he =>
          obtain rfl := Option.some.inj hstep
          exact h.enq rfl rfl rfl fun hquiet => absurd hquiet (not_quiet_setEnq he (by simp))
      · simp at hstep
  | setNum e =>
      simp only [CqWait.step] at hstep
      split at hstep
      · next n he =>
          obtain rfl := Option.some.inj hstep
          exact h.enq rfl rfl rfl fun hquiet => absurd hquiet (not_quiet_setEnq he (by simp))
      · simp at hstep
  | active e =>
      simp only [CqWait.step] at hstep
      split at hstep
      · next n he =>
          obtain rfl := Option.some.inj hstep
          split
          · next hempty => exact h.active hempty fun hq => hcov hq hempty
          · exact h.enq rfl rfl rfl fun hquiet => absurd hquiet (not_quiet_setEnq he (by simp))
      · simp at hstep
  | wake e =>
      simp only [CqWait.step] at hstep
      split at hstep
      · next n he =>
          obtain rfl := Option.some.inj hstep
          exact h.wake (hcov _ he)
      · simp at hstep

theorem logic_cq_no_lost_wakeup_of_covered (s : CqWait α)
    (h : (machine α).ReachIf Covered s) : s.NoLostWakeup := by
  have hinv : WaitInv s :=
    h.invariant (fun _ => waitInv_init) fun _ _ _ hs hcov hstep => hs.step hcov hstep
  intro hquiet _ r hr hasleep hwould
  obtain ⟨i, hi⟩ := List.mem_iff_getElem?.mp hr
  have hmem : i ∈ s.dueAsleep := mem_those.mpr ⟨r, hi, hasleep, hwould⟩
  rw [(hinv.settled hquiet).none_asleep] at hmem
  simp at hmem

/-! ## Two runs -/

/-- A new queue of four slots. -/
def newWait : CqWait LogicCqeV1 where
  cq := ⟨true, 0, 0, 4, fun _ => cqeV1 0 0 0⟩
  wakeupNum := 0
  waitThreadNum := 0
  waitQueue := []
  receivers := []
  enques := []

/-- The run of a receiver from its first check to its sleep. -/
def toSleep (i : ℕ) : List (WaitStep LogicCqeV1) :=
  [.check i 0, .count i, .join i, .readNum i]

/-- The run of a receiver that takes a token and looks again. -/
def toToken (i : ℕ) : List (WaitStep LogicCqeV1) :=
  [.check i 0, .count i, .join i, .readNum i, .takeNum i, .finish i false, .uncount i false]

/-- A sleeper is woken for its entry; another receiver takes the token left
over and sleeps. -/
def wokenOps : List (WaitStep LogicCqeV1) :=
  [.recv ⟨1, 1, 16, -1, 1⟩] ++ toSleep 0 ++
    [.enque (cqeV1 1 1 1), .readThreadNum 0, .setNum 0, .active 0, .wake 0,
      .finish 0 false, .uncount 0 false, .check 0 0, .recv ⟨2, 2, 16, -1, 1⟩] ++
    toToken 1 ++ toSleep 1

theorem logic_cq_no_lost_wakeup_woken :
    (((machine LogicCqeV1).run newWait wokenOps).getD newWait).NoLostWakeup :=
  logic_cq_no_lost_wakeup_of_covered _ (Machine.ReachIf.run wokenOps (s := newWait)
    (.start ⟨rfl, rfl, rfl, by decide, by decide, rfl, rfl, rfl, rfl, rfl⟩)
    (by decide +kernel) rfl)

/-- Two receivers miss the queue; an entry for the second is published with one
token, which the first receiver takes. -/
def lostOps : List (WaitStep LogicCqeV1) :=
  [.recv ⟨1, 1, 16, -1, 1⟩, .recv ⟨2, 2, 16, -1, 1⟩, .check 0 0, .check 1 0,
    .enque (cqeV1 1 2 2), .readThreadNum 0, .setNum 0, .active 0,
    .count 0, .join 0, .readNum 0, .takeNum 0, .finish 0 false, .uncount 0 false] ++
    toSleep 0 ++ [.count 1, .join 1, .readNum 1]

theorem logic_cq_wakeup_lost :
    ∃ s : CqWait LogicCqeV1, (machine LogicCqeV1).Reach s ∧ ¬ s.NoLostWakeup := by
  refine ⟨((machine LogicCqeV1).run newWait lostOps).getD newWait, ?_, by decide +kernel⟩
  exact Machine.Reach.run lostOps (s := newWait)
    (.start ⟨rfl, rfl, rfl, by decide, by decide, rfl, rfl, rfl, rfl, rfl⟩) rfl

end OpiaiKernel.Trs.CqWait
