import OpiaiKernel.Trs.CdqBatch

/-!
# The batches of a CDQ are not over-committed

The ids handed out since the creation of a queue are its slots in turn, so that
the ids that the head has not passed are distinct while they are fewer than the
slots.  The invariant says so, and that a call that waited in the present queue
kept its number of batches.
-/

namespace OpiaiKernel.Trs

open CdqState

variable {side : CdqSide} {s t : CdqState} {c c' : CdqCall} {n m : ℕ}

/-- Slots in turn, from `n` on, are distinct while they are at most `k`. -/
theorem turns_nodup {k : ℕ} (h : m - n ≤ k) :
    (((List.range m).map (· % k)).drop n).Nodup := by
  rw [← List.map_drop, List.range_eq_range', List.drop_range']
  refine List.Nodup.map_on (fun i hi j hj heq => ?_) List.nodup_range'
  rw [List.mem_range'_1] at hi hj
  have hback {i j : ℕ} (hlt : i - j < k) (heq : i % k = j % k) : i ≤ j := by
    have hzero := Nat.sub_mod_eq_zero_of_mod_eq heq
    rw [Nat.mod_eq_of_lt hlt] at hzero
    omega
  exact le_antisymm (hback (by omega) heq) (hback (by omega) heq.symm)

/-- The number of batches that a call of the present queue kept. -/
def CdqCall.kept (gen batchNum : ℕ) : CdqCall → Prop
  | .checked _ => True
  | .waiting n _ g | .waited _ n g | .relock _ n g => g ≤ gen ∧ (g = gen → n = batchNum)

/-- A call of an earlier queue keeps nothing of a new one. -/
theorem CdqCall.kept_succ {gen batchNum : ℕ} (h : c.kept gen batchNum) :
    c.kept (gen + 1) n := by
  cases c with
  | checked timeout => trivial
  | waiting m head g => exact ⟨Nat.le_succ_of_le h.1, fun heq => absurd h.1 (by omega)⟩
  | waited ret m g => exact ⟨Nat.le_succ_of_le h.1, fun heq => absurd h.1 (by omega)⟩
  | relock ret m g => exact ⟨Nat.le_succ_of_le h.1, fun heq => absurd h.1 (by omega)⟩

/-- What a call that returned did: it answers success exactly when it handed
out the batch at the tail and moved the tail by one; the queue was then the one
that it began with, valid and not abnormal. -/
structure CdqOutcome.Ok (o : CdqOutcome) : Prop where
  ret_iff : o.ret = .ok () ↔ o.handed.isSome = true
  handed : ∀ b ∈ o.handed, b.batchId = b.tail ∧ b.newTail = (b.tail + 1) % b.batchNum ∧
    b.valid = true ∧ b.abnormal = false ∧ b.gen = b.callGen

structure CdqInv (side : CdqSide) (s : CdqState) : Prop where
  valid_iff : s.cdq.valid = true ↔ s.cdq.createSide = some side
  room : s.calls ≠ [] ∨ s.cdq.valid = true → 1 < s.cdq.batchNum
  passed_le : s.passed ≤ s.rdyIdx
  rdyIdx_le : s.rdyIdx ≤ s.ids.length
  pending_le : s.ids.length - s.passed ≤ s.cdq.batchNum - 1
  head : s.cdq.useBatchHead = s.passed % s.cdq.batchNum
  tail : s.cdq.useBatchTail = s.ids.length % s.cdq.batchNum
  ids : s.ids = (List.range s.ids.length).map (· % s.cdq.batchNum)
  kept : ∀ c ∈ s.calls, c.kept s.gen s.cdq.batchNum
  ok : ∀ o ∈ s.outcomes, o.Ok

/-- A call takes the mutex while the queue is the local side's; a call that was
woken takes it again while its queue is there, not abnormal and not full. -/
def cdqLockFits (side : CdqSide) (s : CdqState) : CdqOp → Prop
  | .lock _ => s.cdq.createSide = some side
  | .relock .woken _ gen =>
      s.cdq.valid = true ∧ s.gen = gen ∧ s.cdq.timeOutFlag = false ∧
        cdqmJudgeCdqFull s.cdq = false
  | _ => True

namespace CdqInv

theorem init (side : CdqSide) : CdqInv side cdqInit := by
  refine ⟨?_, ?_, ?_, ?_, ?_, ?_, ?_, ?_, ?_, ?_⟩ <;> simp [cdqInit]

/-- Calls and outcomes change, the queue does not. -/
theorem setCalls (h : CdqInv side s) {calls : List CdqCall} {outcomes : List CdqOutcome}
    (hne : calls ≠ [] → s.calls ≠ [] ∨ s.cdq.valid = true)
    (hkept : ∀ c ∈ calls, c.kept s.gen s.cdq.batchNum) (hok : ∀ o ∈ outcomes, o.Ok) :
    CdqInv side { s with calls := calls, outcomes := outcomes } where
  valid_iff := h.valid_iff
  room hroom := h.room (hroom.elim hne .inr)
  passed_le := h.passed_le
  rdyIdx_le := h.rdyIdx_le
  pending_le := h.pending_le
  head := h.head
  tail := h.tail
  ids := h.ids
  kept := hkept
  ok := hok

theorem calls_ne_nil (hc : c ∈ s.calls) : s.calls ≠ [] := List.ne_nil_of_mem hc

/-- A call returns an error. -/
theorem finish (h : CdqInv side s) (hc : c ∈ s.calls) (e : DrvError) :
    CdqInv side (s.finish c (.error e)) := by
  refine h.setCalls (fun _ => .inl (calls_ne_nil hc))
    (fun c' hc' => h.kept c' (List.mem_of_mem_erase hc')) fun o ho => ?_
  rcases List.mem_cons.mp ho with rfl | ho
  · exact ⟨by simp, by simp⟩
  · exact h.ok o ho

theorem become (h : CdqInv side s) (hc : c ∈ s.calls) (hkept : c'.kept s.gen s.cdq.batchNum) :
    CdqInv side (s.become c c') := by
  refine h.setCalls (fun _ => .inl (calls_ne_nil hc)) (fun d hd => ?_) h.ok
  rcases List.mem_cons.mp hd with rfl | hd
  · exact hkept
  · exact h.kept d (List.mem_of_mem_erase hd)

/-- The head is told what the hardware took. -/
theorem refresh (h : CdqInv side s) : CdqInv side (getCdqRdyIdx s) where
  valid_iff := h.valid_iff
  room := h.room
  passed_le := le_rfl
  rdyIdx_le := h.rdyIdx_le
  pending_le := by
    have hpend := h.pending_le
    have hpassed := h.passed_le
    change s.ids.length - s.rdyIdx ≤ s.cdq.batchNum - 1
    omega
  head := rfl
  tail := h.tail
  ids := h.ids
  kept := h.kept
  ok := h.ok

/-- One more batch fits into a queue that is not full. -/
theorem fits (h : CdqInv side s) (hroom : 1 < s.cdq.batchNum)
    (hfull : cdqmJudgeCdqFull s.cdq = false) :
    s.ids.length + 1 - s.passed ≤ s.cdq.batchNum - 1 := by
  have hpend := h.pending_le
  have hne : s.cdq.useBatchHead ≠ (s.cdq.useBatchTail + 1) % s.cdq.batchNum := by
    simpa [cdqmJudgeCdqFull] using hfull
  rw [h.head, h.tail, Nat.mod_add_mod] at hne
  by_contra hlt
  -- the tail would be one turn ahead of the head
  have hturn : s.ids.length + 1 = s.passed + s.cdq.batchNum := by
    have hpassed := h.passed_le
    have hrdy := h.rdyIdx_le
    omega
  rw [hturn, Nat.add_mod_right] at hne
  exact hne rfl

theorem assign (h : CdqInv side s) (hc : c ∈ s.calls) (hvalid : s.cdq.valid = true)
    (habn : s.cdq.timeOutFlag = false) (hfull : cdqmJudgeCdqFull s.cdq = false) :
    CdqInv side (s.assign c s.cdq.batchNum s.gen) := by
  have hroom := h.room (.inl (calls_ne_nil hc))
  have hfits := h.fits hroom hfull
  have hlen : (s.ids ++ [s.cdq.useBatchTail]).length = s.ids.length + 1 := by simp
  refine ⟨h.valid_iff, fun _ => hroom, h.passed_le, ?_, ?_, h.head, ?_, ?_, fun d hd => ?_,
    fun o ho => ?_⟩
  · have hrdy := h.rdyIdx_le
    change s.rdyIdx ≤ (s.ids ++ [s.cdq.useBatchTail]).length
    omega
  · change (s.ids ++ [s.cdq.useBatchTail]).length - s.passed ≤ s.cdq.batchNum - 1
    omega
  · change (s.cdq.useBatchTail + 1) % s.cdq.batchNum =
      (s.ids ++ [s.cdq.useBatchTail]).length % s.cdq.batchNum
    rw [hlen, h.tail, Nat.mod_add_mod]
  · change s.ids ++ [s.cdq.useBatchTail] =
      (List.range (s.ids ++ [s.cdq.useBatchTail]).length).map (· % s.cdq.batchNum)
    rw [hlen, List.range_succ, List.map_append, ← h.ids, h.tail]
    rfl
  · exact h.kept d (List.mem_of_mem_erase hd)
  · rcases List.mem_cons.mp ho with rfl | ho
    · refine ⟨by simp, fun b hb => ?_⟩
      obtain rfl := Option.some.inj hb
      exact ⟨rfl, rfl, hvalid, habn, rfl⟩
    · exact h.ok o ho

theorem lock (h : CdqInv side s) {timeout : ℤ} (hc : c ∈ s.calls)
    (hside : s.cdq.createSide = some side) :
    CdqInv side (allocBatchLocked side s c timeout) := by
  have href := h.refresh
  simp only [allocBatchLocked, hside, ne_eq, not_true_eq_false, if_false]
  split_ifs with habn hfull htimeout
  · exact h.finish hc _
  · exact href.finish hc _
  · have hwait : CdqCall.kept (getCdqRdyIdx s).gen (getCdqRdyIdx s).cdq.batchNum
        (.waiting (getCdqRdyIdx s).cdq.batchNum (getCdqRdyIdx s).cdq.useBatchHead
          (getCdqRdyIdx s).gen) := ⟨le_rfl, fun _ => rfl⟩
    exact href.become hc hwait
  · have habn' : (getCdqRdyIdx s).cdq.timeOutFlag = false := by
      change s.cdq.timeOutFlag = false
      simpa using habn
    exact href.assign hc (h.valid_iff.mpr hside) habn' (by simpa using hfull)

theorem relock (h : CdqInv side s) {ret : WaitEnd} {gen : ℕ}
    (hc : .relock ret n gen ∈ s.calls) (hfits : cdqLockFits side s (.relock ret n gen)) :
    CdqInv side (allocBatchRelocked s (.relock ret n gen) ret n gen) := by
  cases ret with
  | timeout => exact h.finish hc _
  | interrupted => exact h.finish hc _
  | woken =>
      obtain ⟨hvalid, rfl, habn, hfull⟩ := hfits
      obtain rfl : n = s.cdq.batchNum := (h.kept _ hc).2 rfl
      exact h.assign hc hvalid habn hfull

theorem create (h : CdqInv side s) (pid batchNum batchSize : ℕ) (syncOk : Bool) :
    CdqInv side (cdqmDrvCreateCdq side s pid batchNum batchSize syncOk) := by
  unfold cdqmDrvCreateCdq
  split_ifs with hpara hbusy
  · exact h
  · exact h
  · have hnum : 1 < batchNum := by
      simp [cdqmCreateParaCheck] at hpara
      omega
    refine ⟨by simp, fun _ => hnum, le_rfl, le_rfl, Nat.zero_le _, (Nat.zero_mod _).symm,
      (Nat.zero_mod _).symm, rfl, fun c hc => ?_, h.ok⟩
    exact CdqCall.kept_succ (h.kept c hc)

/-- The configuration goes, the batches stay. -/
theorem clear (h : CdqInv side s) :
    CdqInv side { s with cdq := cdqmClearCdqMng s.cdq } where
  valid_iff := by simp [cdqmClearCdqMng]
  room hroom := h.room (hroom.imp_right fun hvalid => by simp [cdqmClearCdqMng] at hvalid)
  passed_le := h.passed_le
  rdyIdx_le := h.rdyIdx_le
  pending_le := h.pending_le
  head := h.head
  tail := h.tail
  ids := h.ids
  kept := h.kept
  ok := h.ok

theorem destroy (h : CdqInv side s) (pid : ℕ) (uninitOk : Bool) :
    CdqInv side (cdqmDrvDestroyCdq side s pid uninitOk) := by
  unfold cdqmDrvDestroyCdq
  split_ifs
  · exact h
  · exact h
  · exact h
  · exact h.clear

theorem recycle (h : CdqInv side s) (pid : ℕ) (uninitOk : Bool) :
    CdqInv side (cdqmRecycleCdq side s pid uninitOk) := by
  unfold cdqmRecycleCdq
  split_ifs
  · have hset : CdqInv side { s with cdq := { s.cdq with recyclePid := pid } } :=
      ⟨h.valid_iff, h.room, h.passed_le, h.rdyIdx_le, h.pending_le, h.head, h.tail, h.ids,
        h.kept, h.ok⟩
    exact hset.destroy pid uninitOk
  · exact h

theorem batchAbnormal (h : CdqInv side s) : CdqInv side (cdqmDrvBatchAbnormal s) := by
  unfold cdqmDrvBatchAbnormal
  split_ifs
  · exact ⟨h.valid_iff, h.room, h.passed_le, h.rdyIdx_le, h.pending_le, h.head, h.tail, h.ids,
      h.kept, h.ok⟩
  · exact h

theorem step (h : CdqInv side s) {a : CdqOp} (hfits : cdqLockFits side s a)
    (hstep : cdqStep side s a = some t) : CdqInv side t := by
  cases a with
  | create pid batchNum batchSize syncOk =>
      obtain rfl := Option.some.inj hstep
      exact h.create pid batchNum batchSize syncOk
  | destroy pid uninitOk =>
      obtain rfl := Option.some.inj hstep
      exact h.destroy pid uninitOk
  | recycle pid uninitOk =>
      obtain rfl := Option.some.inj hstep
      exact h.recycle pid uninitOk
  | abnormal =>
      obtain rfl := Option.some.inj hstep
      exact h.batchAbnormal
  | advance =>
      simp only [cdqStep, Option.ite_none_right_eq_some, Option.some.injEq] at hstep
      obtain ⟨hlt, rfl⟩ := hstep
      exact ⟨h.valid_iff, h.room, Nat.le_succ_of_le h.passed_le, hlt, h.pending_le, h.head,
        h.tail, h.ids, h.kept, h.ok⟩
  | refresh =>
      obtain rfl := Option.some.inj hstep
      exact h.refresh
  | check pid timeout =>
      simp only [cdqStep] at hstep
      split_ifs at hstep with hcheck
      · obtain rfl := Option.some.inj hstep
        have hvalid : s.cdq.valid = true := by
          simp only [cdqmExistCdqParaCheck, Bool.and_eq_true] at hcheck
          exact hcheck.1
        refine h.setCalls (fun _ => .inr hvalid) (fun c hc => ?_) h.ok
        rcases List.mem_cons.mp hc with rfl | hc
        · trivial
        · exact h.kept c hc
      · obtain rfl := Option.some.inj hstep
        refine h.setCalls .inl h.kept fun o ho => ?_
        rcases List.mem_cons.mp ho with rfl | ho
        · exact ⟨by simp, by simp⟩
        · exact h.ok o ho
  | lock timeout =>
      simp only [cdqStep, Option.ite_none_right_eq_some, Option.some.injEq] at hstep
      obtain ⟨hc, rfl⟩ := hstep
      exact h.lock hc hfits
  | wake batchNum cdqHead gen ret =>
      simp only [cdqStep, Option.ite_none_right_eq_some, Option.some.injEq] at hstep
      obtain ⟨⟨hc, -⟩, rfl⟩ := hstep
      have hkept : CdqCall.kept s.gen s.cdq.batchNum (.waited ret batchNum gen) :=
        h.kept (.waiting batchNum cdqHead gen) hc
      exact h.become hc hkept
  | recheck ret batchNum gen =>
      simp only [cdqStep, Option.ite_none_right_eq_some] at hstep
      obtain ⟨hc, hstep⟩ := hstep
      split_ifs at hstep
      · obtain rfl := Option.some.inj hstep
        exact h.finish hc _
      · obtain rfl := Option.some.inj hstep
        have hkept : CdqCall.kept s.gen s.cdq.batchNum (.relock ret batchNum gen) :=
          h.kept (.waited ret batchNum gen) hc
        exact h.become hc hkept
  | relock ret batchNum gen =>
      simp only [cdqStep, Option.ite_none_right_eq_some, Option.some.injEq] at hstep
      obtain ⟨hc, rfl⟩ := hstep
      exact h.relock hc hfits

theorem nodup (h : CdqInv side s) : (s.ids.drop s.passed).Nodup := by
  rw [h.ids]
  have hpend := h.pending_le
  exact turns_nodup (by omega)

end CdqInv

/-- The batches that were handed out and that the head has not passed are
distinct and leave one slot free, and the calls that returned did what they
answered. -/
structure CdqSafe (s : CdqState) : Prop where
  head : s.cdq.useBatchHead = s.passed % s.cdq.batchNum
  nodup : (s.ids.drop s.passed).Nodup
  length_le : (s.ids.drop s.passed).length ≤ s.cdq.batchNum - 1
  ok : ∀ o ∈ s.outcomes, o.Ok

theorem alloc_batch_safe (h : (cdqMachine side).ReachIf (cdqLockFits side) s) : CdqSafe s := by
  have hinv : CdqInv side s := by
    refine h.invariant (fun s hs => ?_) fun s a t hs hfits hstep => hs.step hfits hstep
    rw [show s = cdqInit from hs]
    exact .init side
  exact ⟨hinv.head, hinv.nodup, by simpa using hinv.pending_le, hinv.ok⟩

instance (side : CdqSide) (s : CdqState) : ∀ a, Decidable (cdqLockFits side s a)
  | .lock _ => inferInstanceAs (Decidable (s.cdq.createSide = some side))
  | .relock .woken _ gen =>
      inferInstanceAs (Decidable (s.cdq.valid = true ∧ s.gen = gen ∧
        s.cdq.timeOutFlag = false ∧ cdqmJudgeCdqFull s.cdq = false))
  | .relock .timeout _ _ | .relock .interrupted _ _ => isTrue trivial
  | .create _ _ _ _ | .destroy _ _ | .recycle _ _ | .abnormal | .advance | .refresh
  | .check _ _ | .wake _ _ _ _ | .recheck _ _ _ => isTrue trivial

/-- A queue of two batches: one is handed out, two calls wait, and the
hardware takes the one batch. -/
def twoWaitersRun : List CdqOp :=
  [.create 7 2 1 true, .check 7 0, .check 7 1, .check 7 2, .lock 0, .lock 1, .lock 2, .advance,
    .refresh, .wake 2 0 1 .woken, .wake 2 0 1 .woken, .recheck .woken 2 1, .recheck .woken 2 1,
    .relock .woken 2 1]

/-- Both waiters take a batch, though the head moved by one. -/
theorem two_waiters_overcommit :
    ¬ ∀ s, (cdqMachine .createByHost).Reach s → CdqSafe s := by
  intro hall
  have hrun : (cdqMachine .createByHost).Reach
      ((cdqMachine .createByHost).final cdqInit (twoWaitersRun ++ [.relock .woken 2 1])) :=
    Machine.Reach.final (.start rfl) (by decide +kernel)
  have hle := (hall _ hrun).length_le
  revert hle
  decide +kernel

/-- The first of them is safe. -/
theorem alloc_batch_safe_one_waiter :
    CdqSafe ((cdqMachine .createByHost).final cdqInit twoWaitersRun) ∧
      ((cdqMachine .createByHost).final cdqInit twoWaitersRun).ids = [0, 1] :=
  ⟨alloc_batch_safe (Machine.ReachIf.final (.start rfl) (by decide +kernel) (by decide +kernel)),
    by decide +kernel⟩

end OpiaiKernel.Trs
