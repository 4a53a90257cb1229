import OpiaiKernel.Trs.ChanSq

/-!
# Failed submissions

A send moves the tail with every SQE that it writes and tells the device at its
end.  Only a failed update of the device takes the tail back.  A send that fails
earlier leaves the SQEs that it has written behind the tail of the device, and
the next send publishes them with its own.
-/

namespace OpiaiKernel.Trs

variable {α : Type} {s₀ s t : ChanSqState α} {snd : TrsChanSend α} {op : ChanSqOp α}

/-- The states of a call of `trs_chan_submit` that started in `s₀`, with what
happens to the channel meanwhile. -/
inductive Submitting (s₀ : ChanSqState α) : ChanSqState α → Prop
  | start {s : ChanSqState α} (sqe : List α) (timeout : ℤ) (inSoftirq : Bool)
      (hstep : chanSqStep s₀ (.send sqe timeout inSoftirq) = some s) (hsend : s.send ≠ none) :
      Submitting s₀ s
  | next {s t : ChanSqState α} (op : ChanSqOp α) (h : Submitting s₀ s)
      (hstep : chanSqStep s op = some t) (hsend : t.send ≠ none) : Submitting s₀ t

/-- The last step of a call that returns an error. -/
structure SubmitFails (s₀ s t : ChanSqState α) (op : ChanSqOp α) : Prop where
  submitting : Submitting s₀ s
  step : chanSqStep s op = some t
  ended : t.send = none
  error : op ≠ .tail (.ok ())

/-- The tail, and the SQEs that a later update of the device publishes, are
those before the call. -/
structure Unsubmitted (s₀ t : ChanSqState α) : Prop where
  sqTail : t.sq.sqTail = s₀.sq.sqTail
  submitted : t.submitted = s₀.submitted
  published : t.published = s₀.published

/-- What a call in progress has done to the ring. -/
structure Written (s₀ s : ChanSqState α) (snd : TrsChanSend α) : Prop where
  start : snd.sqTail = s₀.sq.sqTail
  published : s.published = s₀.published
  submitted : ∃ sqes, s.submitted = s₀.submitted ++ sqes ∧ sqes.length = snd.sendSqeNum
  idle : snd.sendSqeNum = 0 → s.sq.sqTail = s₀.sq.sqTail

/-- Two states that may differ in the head, the memory and the send. -/
structure SameTail (s t : ChanSqState α) : Prop where
  sqTail : t.sq.sqTail = s.sq.sqTail
  submitted : t.submitted = s.submitted
  published : t.published = s.published

theorem SameTail.refl (s : ChanSqState α) : SameTail s s := ⟨rfl, rfl, rfl⟩

theorem SameTail.trans {u : ChanSqState α} (hst : SameTail s t) (htu : SameTail t u) :
    SameTail s u :=
  ⟨htu.sqTail.trans hst.sqTail, htu.submitted.trans hst.submitted,
    htu.published.trans hst.published⟩

theorem trsChanIsFull_same (s : ChanSqState α) (hw : Option SqHeadReport) :
    SameTail s (trsChanIsFull s hw).2 := by
  unfold trsChanIsFull
  split
  · exact .refl s
  · cases hw with
    | none => exact .refl s
    | some r => exact ⟨rfl, rfl, rfl⟩

/-- The tail is left, and the send as far as it goes on. -/
structure Retries (s : ChanSqState α) (snd : TrsChanSend α) (t : ChanSqState α) : Prop where
  same : SameTail s t
  send : ∀ next ∈ t.send, next.sqTail = snd.sqTail ∧ next.sendSqeNum = snd.sendSqeNum

/-- A failed fill ends the send or tries again. -/
theorem submitError_retries (s : ChanSqState α) (snd : TrsChanSend α) (e : Errno) :
    Retries s snd (submitError s snd e) := by
  unfold submitError
  split
  · exact ⟨⟨rfl, rfl, rfl⟩, by simp⟩
  · split
    · exact ⟨⟨rfl, rfl, rfl⟩, by simp⟩
    · split
      · exact ⟨⟨rfl, rfl, rfl⟩, by simp⟩
      · exact ⟨⟨rfl, rfl, rfl⟩, by simp⟩

theorem trsChanUpdateSqHead_tail (sq : TrsChanSqCtx α) (sqHead : ℕ) :
    (trsChanUpdateSqHead sq sqHead).2.sqTail = sq.sqTail := by
  unfold trsChanUpdateSqHead
  split <;> rfl

theorem fillSqeRoom_retries (s : ChanSqState α) (snd : TrsChanSend α) (hw : Option SqHeadReport) :
    Retries s snd (fillSqeRoom s snd hw) := by
  have hsame := trsChanIsFull_same s hw
  unfold fillSqeRoom
  split
  · next s' heq =>
      rw [heq] at hsame
      exact ⟨⟨hsame.sqTail, hsame.submitted, hsame.published⟩, by simp⟩
  · next s' heq =>
      rw [heq] at hsame
      split
      · have herr := submitError_retries s' snd .ENOSPC
        exact ⟨hsame.trans herr.same, herr.send⟩
      · exact ⟨⟨hsame.sqTail, hsame.submitted, hsame.published⟩, by simp⟩

theorem fillSqeWait_retries (s : ChanSqState α) (snd : TrsChanSend α) (ret : Except Errno Unit)
    (hw : Option SqHeadReport) : Retries s snd (fillSqeWait s snd ret hw) := by
  have hsame := trsChanIsFull_same s hw
  cases ret with
  | error e => exact submitError_retries s snd e
  | ok u =>
      unfold fillSqeWait
      dsimp only
      split
      · next s' heq =>
          rw [heq] at hsame
          exact ⟨⟨hsame.sqTail, hsame.submitted, hsame.published⟩, by simp⟩
      · next s' heq =>
          rw [heq] at hsame
          have herr := submitError_retries s' snd .ETIMEDOUT
          exact ⟨hsame.trans herr.same, herr.send⟩

/-- A copy fills an SQE or fails. -/
theorem fillSqeCopy_cases (s : ChanSqState α) (snd : TrsChanSend α) (sqe : α) (rest : List α)
    (copied : Bool) (sqeUpdate : α → Except Errno α) (dst : Option α) :
    (∃ sqe', (fillSqeCopy s snd sqe rest copied sqeUpdate dst).submitted = s.submitted ++ [sqe'] ∧
        (fillSqeCopy s snd sqe rest copied sqeUpdate dst).published = s.published ∧
        ∃ next, (fillSqeCopy s snd sqe rest copied sqeUpdate dst).send = some next ∧
          next.sqTail = snd.sqTail ∧ next.sendSqeNum = snd.sendSqeNum + 1) ∨
      Retries s snd (fillSqeCopy s snd sqe rest copied sqeUpdate dst) := by
  have hfail (e : Errno) : Retries s snd (submitError (sqeLeft s dst) snd e) := by
    have hleft : SameTail s (sqeLeft s dst) := by
      cases dst <;> exact ⟨rfl, rfl, rfl⟩
    have herr := submitError_retries (sqeLeft s dst) snd e
    exact ⟨hleft.trans herr.same, herr.send⟩
  unfold fillSqeCopy
  split
  · exact .inr (hfail .EINVAL)
  · split
    · next e heq => exact .inr (hfail e)
    · next sqe' heq => exact .inl ⟨sqe', rfl, rfl, _, rfl, rfl, rfl⟩

/-- A step of a call: it fills an SQE, or updates the device, or leaves the
tail, and then the send as far as it goes on. -/
theorem chanSqStep_cases (hsend : s.send = some snd) (hstep : chanSqStep s op = some t) :
    (∃ sqe, t.submitted = s.submitted ++ [sqe] ∧ t.published = s.published ∧
        ∃ next, t.send = some next ∧ next.sqTail = snd.sqTail ∧
          next.sendSqeNum = snd.sendSqeNum + 1) ∨
      (∃ sqcqCtrl, op = .tail sqcqCtrl ∧ t = submitTail s snd sqcqCtrl) ∨
      (Retries s snd t ∧ ∀ sqcqCtrl, op ≠ .tail sqcqCtrl) := by
  have hkeep : t.send = s.send → ∀ next ∈ t.send,
      next.sqTail = snd.sqTail ∧ next.sendSqeNum = snd.sendSqeNum := by
    intro heq next hnext
    rw [heq, hsend] at hnext
    obtain rfl := Option.some.inj hnext
    exact ⟨rfl, rfl⟩
  cases op with
  | send sqe timeout inSoftirq => simp [chanSqStep, trsChanSendEx, hsend] at hstep
  | room hw =>
      simp only [chanSqStep, hsend] at hstep
      split at hstep
      · obtain rfl := Option.some.inj hstep
        exact .inr (.inr ⟨fillSqeRoom_retries s snd hw, by simp⟩)
      · cases hstep
  | wait ret hw =>
      simp only [chanSqStep, hsend] at hstep
      split at hstep
      · obtain rfl := Option.some.inj hstep
        exact .inr (.inr ⟨fillSqeWait_retries s snd ret hw, by simp⟩)
      · cases hstep
  | copy copied sqeUpdate dst =>
      simp only [chanSqStep, hsend] at hstep
      split at hstep
      · obtain rfl := Option.some.inj hstep
        rcases fillSqeCopy_cases s snd _ _ copied sqeUpdate dst with hfill | hfail
        · exact .inl hfill
        · exact .inr (.inr ⟨hfail, by simp⟩)
      · cases hstep
  | tail sqcqCtrl =>
      simp only [chanSqStep, hsend] at hstep
      split at hstep
      · obtain rfl := Option.some.inj hstep
        exact .inr (.inl ⟨sqcqCtrl, rfl, rfl⟩)
      · cases hstep
  | tryToUpdateSqHead hw cqe =>
      obtain rfl := Option.some.inj hstep
      refine .inr (.inr ⟨⟨?_, hkeep ?_⟩, by simp⟩)
      · cases hw with
        | none => exact ⟨trsChanUpdateSqHead_tail _ _, rfl, rfl⟩
        | some r => exact ⟨rfl, rfl, rfl⟩
      · cases hw <;> rfl
  | updateSqHead r =>
      obtain rfl := Option.some.inj hstep
      exact .inr (.inr ⟨⟨⟨trsChanUpdateSqHead_tail _ _, rfl, rfl⟩, hkeep rfl⟩, by simp⟩)
  | setSqHead r sqcqCtrl =>
      obtain rfl := Option.some.inj hstep
      refine .inr (.inr ⟨⟨⟨?_, rfl, rfl⟩, hkeep rfl⟩, by simp⟩)
      unfold trsChanSetSqHead
      cases sqcqCtrl with
      | ok u => exact trsChanUpdateSqHead_tail _ _
      | error e =>
          dsimp only
          split
          · rfl
          · exact trsChanUpdateSqHead_tail _ _
  | setSqStatus status =>
      obtain rfl := Option.some.inj hstep
      exact .inr (.inr ⟨⟨⟨rfl, rfl, rfl⟩, hkeep rfl⟩, by simp⟩)

/-- A call in progress has only written SQEs behind those submitted before. -/
theorem Submitting.written (h : Submitting s₀ s) : ∃ snd, s.send = some snd ∧ Written s₀ s snd := by
  induction h with
  | start sqe timeout inSoftirq hstep hsend =>
      simp only [chanSqStep, trsChanSendEx] at hstep
      split at hstep
      · cases hstep
      · next hidle =>
          split at hstep
          · obtain rfl := Option.some.inj hstep
            exact absurd hidle hsend
          · obtain rfl := Option.some.inj hstep
            exact ⟨_, rfl, rfl, rfl, ⟨[], by simp, rfl⟩, fun _ => rfl⟩
  | next op h hstep hsend ih =>
      obtain ⟨snd, hsnd, hwritten⟩ := ih
      obtain ⟨sqes, hsub, hlen⟩ := hwritten.submitted
      rcases chanSqStep_cases hsnd hstep with
        ⟨sqe, hsub', hpub, next, hnext, htail, hnum⟩ | ⟨sqcqCtrl, rfl, rfl⟩ | ⟨hretry, -⟩
      · refine ⟨next, hnext, htail.trans hwritten.start, hpub.trans hwritten.published,
          ⟨sqes ++ [sqe], ?_, ?_⟩, by omega⟩
        · rw [hsub', hsub, List.append_assoc]
        · rw [List.length_append, hlen, hnum]
          rfl
      · cases sqcqCtrl <;> exact absurd rfl hsend
      · obtain ⟨next, hnext⟩ := Option.ne_none_iff_exists'.mp hsend
        obtain ⟨htail, hnum⟩ := hretry.send next hnext
        refine ⟨next, hnext, htail.trans hwritten.start,
          hretry.same.published.trans hwritten.published,
          ⟨sqes, hretry.same.submitted.trans hsub, hlen.trans hnum.symm⟩, fun hzero => ?_⟩
        exact hretry.same.sqTail.trans (hwritten.idle (hnum ▸ hzero))

/-- A call that fails leaves the ring as it was exactly when it fails at the
update of the device, or before it has filled an SQE. -/
theorem submit_all_or_nothing_iff (s₀ s t : ChanSqState α) (op : ChanSqOp α)
    (h : SubmitFails s₀ s t op) :
    Unsubmitted s₀ t ↔
      (∃ e, op = .tail (.error e)) ∨ ∀ snd ∈ s.send, snd.sendSqeNum = 0 := by
  obtain ⟨snd, hsnd, hwritten⟩ := h.submitting.written
  obtain ⟨sqes, hsub, hlen⟩ := hwritten.submitted
  have hnum : (∀ snd ∈ s.send, snd.sendSqeNum = 0) ↔ snd.sendSqeNum = 0 := by simp [hsnd]
  rw [hnum]
  rcases chanSqStep_cases hsnd h.step with
    ⟨sqe, -, -, next, hnext, -⟩ | ⟨sqcqCtrl, rfl, rfl⟩ | ⟨hretry, hop⟩
  · simp [h.ended] at hnext
  · cases sqcqCtrl with
    | ok u => exact absurd rfl h.error
    | error e =>
        refine iff_of_true ⟨hwritten.start, ?_, hwritten.published⟩ (.inl ⟨e, rfl⟩)
        change s.submitted.take (s.submitted.length - snd.sendSqeNum) = _
        rw [hsub, List.length_append, hlen, Nat.add_sub_cancel, List.take_left]
  · constructor
    · intro hsame
      have hall := hretry.same.submitted.symm.trans hsame.submitted
      rw [hsub] at hall
      obtain rfl : sqes = [] := by simpa using hall
      exact .inr hlen.symm
    · rintro (⟨e, rfl⟩ | hzero)
      · exact absurd rfl (hop _)
      · rw [hzero] at hlen
        obtain rfl := List.length_eq_zero_iff.mp hlen
        rw [List.append_nil] at hsub
        exact ⟨hretry.same.sqTail.trans (hwritten.idle hzero), hretry.same.submitted.trans hsub,
          hretry.same.published.trans hwritten.published⟩

/-! ## Two failed calls -/

/-- The channel after some steps of a send of two SQEs. -/
def sendTwo (ops : List (ChanSqOp ℕ)) : ChanSqState ℕ :=
  (chanSqMachine ℕ).final chanSqExample (.send [5, 6] 0 false :: ops)

theorem submitting_room : Submitting chanSqExample (sendTwo [.room none]) :=
  .next (.room none) (.start [5, 6] 0 false (s := sendTwo []) rfl (by decide)) rfl (by decide)

theorem submit_all_or_nothing_first :
    Unsubmitted chanSqExample (sendTwo [.room none, .copy false .ok none]) :=
  (submit_all_or_nothing_iff chanSqExample (sendTwo [.room none])
    (sendTwo [.room none, .copy false .ok none]) (.copy false .ok none)
    ⟨submitting_room, rfl, rfl, by simp⟩).mpr (.inr (by decide))

/-- The copy of the second SQE fails, and the first one stays behind the tail of
the device. -/
theorem submit_leaves_first : ∃ s₀ s t : ChanSqState ℕ, (chanSqMachine ℕ).Reach s₀ ∧
    ∃ op, SubmitFails s₀ s t op ∧ ¬ Unsubmitted s₀ t := by
  refine ⟨chanSqExample, sendTwo [.room none, .copy true .ok none, .room none],
    sendTwo [.room none, .copy true .ok none, .room none, .copy false .ok none], ?_,
    .copy false .ok none, ⟨?_, rfl, rfl, by simp⟩, ?_⟩
  · exact .start (by simp [chanSqMachine, chanSqExample, TRS_SQCQ_DEPTH_MAX])
  · exact .next (.room none) (.next (.copy true .ok none) submitting_room
      (t := sendTwo [.room none, .copy true .ok none]) rfl (by decide)) rfl (by decide)
  · intro h
    exact absurd h.sqTail (by decide)

end OpiaiKernel.Trs
