import OpiaiKernel.Trs.ShmSqcq

/-!
# The count of the shared submission queue

Between the two halves of a call the count differs from the number of attached
processes by one.  The invariant carries this difference.
-/

namespace OpiaiKernel.Trs

open ShmState

variable {s t : ShmState} {pid p q : Pid} {k : ℤ}

/-- The count exceeds the number of attached processes by `k`.  Each attached
process has a channel of its own, and there is a shared one while the count is
positive. -/
structure ShmCount (k : ℤ) (s : ShmState) : Prop where
  nodup : s.procs.Nodup
  ref_eq : (s.shm.ref : ℤ) = s.attachedNum + k
  shared : 0 < s.shm.ref → 0 ≤ s.shm.chanId ∧ s.live s.shm.chanId = true
  unshared : s.shm.ref = 0 → s.shm.chanId = -1
  own : ∀ p ∈ s.procs, s.attached p = true → s.live (s.proc p).chanId = true ∧
    (s.proc p).chanId ≠ s.shm.chanId
  sole : ∀ p ∈ s.procs, ∀ q ∈ s.procs, s.attached p = true → s.attached q = true →
    (s.proc p).chanId = (s.proc q).chanId → p = q

theorem ShmState.attachedNum_le (hnodup : s.procs.Nodup) : s.attachedNum ≤ 2 ^ 31 :=
  calc s.attachedNum ≤ s.procs.length := List.countP_le_length
    _ ≤ Fintype.card Pid := hnodup.length_le_card
    _ = 2 ^ 31 := Fintype.card_fin _

theorem ShmState.attachedNum_pos (hp : p ∈ s.procs) (ha : s.attached p = true) :
    0 < s.attachedNum :=
  List.countP_pos_iff.mpr ⟨p, hp, ha⟩

theorem ShmState.attached_eq_true : s.attached p = true ↔ 0 ≤ (s.proc p).chanId := by
  simp [attached]

theorem ShmState.attached_eq_false : s.attached p = false ↔ (s.proc p).chanId < 0 := by
  simp [attached]

namespace ShmCount

theorem init (stars : Bool) : ShmCount 0 (shmInit stars) where
  nodup := List.nodup_nil
  ref_eq := by simp [shmInit, attachedNum]
  shared h := absurd h (lt_irrefl 0)
  unshared _ := rfl
  own p hp := by simp [shmInit] at hp
  sole p hp := by simp [shmInit] at hp

/-- The first half of an allocation takes a reference. -/
theorem allocPhySq (h : ShmCount 0 s) {sqChan : Except Errno ShmChan}
    (hfresh : ∀ c, sqChan = .ok c → s.live c.chanId = false)
    (hok : (trsShmAllocPhySq s sqChan).2 = .ok ()) :
    ShmCount 1 (trsShmAllocPhySq s sqChan).1 := by
  have hle := attachedNum_le h.nodup
  have href := h.ref_eq
  unfold trsShmAllocPhySq at hok ⊢
  split_ifs at hok ⊢ with hpos
  · have hmod : Word.add 32 s.shm.ref 1 = s.shm.ref + 1 := Word.add_of_lt (by omega)
    refine ⟨h.nodup, ?_, fun _ => h.shared hpos, fun hzero => ?_, h.own, h.sole⟩
    · change ((Word.add 32 s.shm.ref 1 : ℕ) : ℤ) = s.attachedNum + 1
      omega
    · simp only [hmod] at hzero
      omega
  · cases sqChan with
    | error e => simp at hok
    | ok c =>
        have hlive := hfresh c rfl
        have hzero : s.attachedNum = 0 := by omega
        have hnone : ∀ p ∈ s.procs, s.attached p ≠ true := by
          simpa [attachedNum, List.countP_eq_zero] using hzero
        refine ⟨h.nodup, ?_, fun _ => ?_, fun hone => ?_, fun p hp hatt => ?_,
          fun p hp _ _ hatt => ?_⟩
        · change (1 : ℤ) = s.attachedNum + 1
          omega
        · exact ⟨Int.natCast_nonneg _, Function.update_self ..⟩
        · cases hone
        · exact absurd hatt (hnone p hp)
        · exact absurd hatt (hnone p hp)

theorem freePhySq (h : ShmCount k s) (hpos : 0 < s.shm.ref) (hk : k ≤ 1) :
    ShmCount (k - 1) (trsShmFreePhySq s) := by
  have hle := attachedNum_le h.nodup
  have href := h.ref_eq
  have hmod : Word.sub 32 s.shm.ref 1 = s.shm.ref - 1 :=
    Word.sub_of_le hpos (by omega)
  unfold trsShmFreePhySq
  simp only [hmod]
  split_ifs with hlast
  · refine ⟨h.nodup, ?_, fun hp => ?_, fun _ => rfl, fun p hp hatt => ?_, h.sole⟩
    · change ((s.shm.ref - 1 : ℕ) : ℤ) = s.attachedNum + (k - 1)
      omega
    · simp only at hp
      omega
    · have hown := h.own p hp hatt
      rw [ShmState.attached_eq_true] at hatt
      refine ⟨?_, ?_⟩
      · simp only [Function.update_of_ne hown.2]
        exact hown.1
      · simp only at hatt ⊢
        omega
  · refine ⟨h.nodup, ?_, fun _ => h.shared hpos, fun hzero => absurd hzero hlast, h.own,
      h.sole⟩
    change ((s.shm.ref - 1 : ℕ) : ℤ) = s.attachedNum + (k - 1)
    omega

/-- A process gets a channel, and nothing else changes. -/
theorem attach (h : ShmCount k s) (hpid : pid ∈ s.procs) (hnot : s.attached pid = false)
    {c : ShmChan} (hlive : s.live c.chanId = false) :
    ShmCount (k - 1) { s.setProc pid { chanId := c.chanId, cqid := c.qid } with
      live := Function.update s.live c.chanId true } := by
  have hself : (s.setProc pid { chanId := c.chanId, cqid := c.qid }).proc pid =
      { chanId := c.chanId, cqid := c.qid } := Function.update_self ..
  have hold (j : Pid) (hj : j ≠ pid) :
      (s.setProc pid { chanId := c.chanId, cqid := c.qid }).proc j = s.proc j :=
    Function.update_of_ne hj ..
  have hnew : (s.setProc pid { chanId := c.chanId, cqid := c.qid }).attached pid = true := by
    simp [attached, hself]
  have hatt (j : Pid) (hj : j ≠ pid) :
      (s.setProc pid { chanId := c.chanId, cqid := c.qid }).attached j = s.attached j := by
    rw [attached, hold j hj, attached]
  -- a channel in use is not the new one
  have hne {i : ℤ} (hi : s.live i = true) : i ≠ c.chanId := by
    rintro rfl
    rw [hlive] at hi
    cases hi
  have hkeep {i : ℤ} (hi : s.live i = true) : Function.update s.live c.chanId true i = true := by
    rw [Function.update_of_ne (hne hi), hi]
  refine ⟨h.nodup, ?_, fun hpos => ?_, h.unshared, fun p hp ha => ?_, fun p hp q hq ha hb => ?_⟩
  · have hcount := KeyCount.gain h.nodup hpid hnot hnew fun j _ hj => hatt j hj
    have href := h.ref_eq
    change (s.shm.ref : ℤ) =
      (s.procs.countP (s.setProc pid { chanId := c.chanId, cqid := c.qid }).attached : ℕ) + (k - 1)
    rw [attachedNum] at href
    omega
  · exact ⟨(h.shared hpos).1, hkeep (h.shared hpos).2⟩
  · change Function.update s.live c.chanId true ((s.setProc pid _).proc p).chanId = true ∧
      ((s.setProc pid _).proc p).chanId ≠ s.shm.chanId
    rcases eq_or_ne p pid with rfl | hne'
    · rw [hself]
      refine ⟨Function.update_self .., ?_⟩
      rcases Nat.eq_zero_or_pos s.shm.ref with hzero | hpos
      · rw [h.unshared hzero]
        change (c.chanId : ℤ) ≠ -1
        omega
      · exact (hne (h.shared hpos).2).symm
    · rw [hold p hne']
      have hown := h.own p hp ((hatt p hne').symm.trans ha)
      exact ⟨hkeep hown.1, hown.2⟩
  · intro heq
    change ((s.setProc pid _).proc p).chanId = ((s.setProc pid _).proc q).chanId at heq
    have hchan (j : Pid) (hj : j ∈ s.procs) (hne' : j ≠ pid)
        (ha : (s.setProc pid { chanId := c.chanId, cqid := c.qid }).attached j = true) :
        (s.proc j).chanId ≠ c.chanId :=
      hne (h.own j hj ((hatt j hne').symm.trans ha)).1
    rcases eq_or_ne p pid with hp' | hp' <;> rcases eq_or_ne q pid with hq' | hq'
    · rw [hp', hq']
    · rw [hp', hself, hold q hq'] at heq
      exact absurd heq.symm (hchan q hq hq' hb)
    · rw [hq', hself, hold p hp'] at heq
      exact absurd heq (hchan p hp hp' ha)
    · rw [hold p hp', hold q hq'] at heq
      exact h.sole p hp q hq ((hatt p hp').symm.trans ha) ((hatt q hq').symm.trans hb) heq

/-- An attached process gives its channel back. -/
theorem freePhyCq (h : ShmCount k s) (hpid : pid ∈ s.procs) (ha : s.attached pid = true) :
    ShmCount (k + 1) (trsShmFreePhyCq s pid) := by
  rw [trsShmFreePhyCq, if_pos (ShmState.attached_eq_true.mp ha)]
  have hself : (s.setProc pid { s.proc pid with chanId := -1 }).proc pid =
      { s.proc pid with chanId := -1 } := Function.update_self ..
  have hold (j : Pid) (hj : j ≠ pid) :
      (s.setProc pid { s.proc pid with chanId := -1 }).proc j = s.proc j :=
    Function.update_of_ne hj ..
  have hnew : (s.setProc pid { s.proc pid with chanId := -1 }).attached pid = false := by
    simp [attached, hself]
  have hatt (j : Pid) (hj : j ≠ pid) :
      (s.setProc pid { s.proc pid with chanId := -1 }).attached j = s.attached j := by
    rw [attached, hold j hj, attached]
  have hne {j : Pid} (hb : (s.setProc pid { s.proc pid with chanId := -1 }).attached j = true) :
      j ≠ pid := by
    rintro rfl
    rw [hnew] at hb
    cases hb
  have hkeep {i : ℤ} (hi : s.live i = true) (hi' : i ≠ (s.proc pid).chanId) :
      Function.update s.live (s.proc pid).chanId false i = true := by
    rw [Function.update_of_ne hi', hi]
  have hown := h.own pid hpid ha
  refine ⟨h.nodup, ?_, fun hpos => ?_, h.unshared, fun p hp hb => ?_, fun p hp q hq hb hc => ?_⟩
  · have hcount := KeyCount.lose h.nodup hpid ha hnew fun j _ hj => hatt j hj
    have href := h.ref_eq
    change (s.shm.ref : ℤ) =
      (s.procs.countP (s.setProc pid { s.proc pid with chanId := -1 }).attached : ℕ) + (k + 1)
    rw [attachedNum] at href
    omega
  · exact ⟨(h.shared hpos).1, hkeep (h.shared hpos).2 hown.2.symm⟩
  · have hb' := (hatt p (hne hb)).symm.trans hb
    have hp' := h.own p hp hb'
    change Function.update s.live _ false ((s.setProc pid _).proc p).chanId = true ∧
      ((s.setProc pid _).proc p).chanId ≠ s.shm.chanId
    rw [hold p (hne hb)]
    exact ⟨hkeep hp'.1 fun heq => hne hb (h.sole p hp pid hpid hb' ha heq), hp'.2⟩
  · intro heq
    change ((s.setProc pid _).proc p).chanId = ((s.setProc pid _).proc q).chanId at heq
    rw [hold p (hne hb), hold q (hne hc)] at heq
    exact h.sole p hp q hq ((hatt p (hne hb)).symm.trans hb) ((hatt q (hne hc)).symm.trans hc) heq

/-- The second half attaches the process. -/
theorem allocPhyCq (h : ShmCount k s) (hpid : pid ∈ s.procs) {cqChan : Except Errno ShmChan}
    (hfresh : ∀ c, cqChan = .ok c → s.live c.chanId = false)
    (hok : (trsShmAllocPhyCq s pid cqChan).2 = .ok ()) :
    ShmCount (k - 1) (trsShmAllocPhyCq s pid cqChan).1 := by
  unfold trsShmAllocPhyCq at hok ⊢
  split_ifs at hok ⊢ with hatt
  cases cqChan with
  | error e => simp at hok
  | ok c => exact h.attach hpid (ShmState.attached_eq_false.mpr (by omega)) (hfresh c rfl)

end ShmCount

/-! ## Whole calls -/

@[simp] theorem trsShmFreePhySq_procs : (trsShmFreePhySq s).procs = s.procs := by
  simp only [trsShmFreePhySq, apply_ite ShmState.procs, ite_self]

@[simp] theorem trsShmFreePhySq_attached : (trsShmFreePhySq s).attached = s.attached := by
  funext p
  simp only [attached, trsShmFreePhySq, apply_ite ShmState.proc, ite_self]

theorem trsShmFreePhySq_ref (hpos : 0 < s.shm.ref) (hlt : s.shm.ref < 2 ^ 32) :
    (trsShmFreePhySq s).shm.ref = s.shm.ref - 1 := by
  have hmod : Word.sub 32 s.shm.ref 1 = s.shm.ref - 1 :=
    Word.sub_of_le hpos (by omega)
  simp only [trsShmFreePhySq, hmod, apply_ite ShmState.shm, apply_ite TrsShmCtx.ref, ite_self]

theorem trsShmFreePhySq_chanId (s : ShmState) :
    (trsShmFreePhySq s).shm.chanId = s.shm.chanId ∨ (trsShmFreePhySq s).shm.chanId = -1 := by
  simp only [trsShmFreePhySq, apply_ite ShmState.shm, apply_ite TrsShmCtx.chanId]
  split_ifs <;> simp

@[simp] theorem trsShmFreePhyCq_shm (s : ShmState) (pid : Pid) : (trsShmFreePhyCq s pid).shm = s.shm := by
  unfold trsShmFreePhyCq
  split_ifs <;> rfl

theorem trsShmAllocPhySq_procs (sqChan : Except Errno ShmChan) :
    (trsShmAllocPhySq s sqChan).1.procs = s.procs := by
  unfold trsShmAllocPhySq
  split_ifs
  · rfl
  · cases sqChan <;> rfl

theorem trsShmAllocPhySq_error {sqChan : Except Errno ShmChan} {e : Errno}
    (h : (trsShmAllocPhySq s sqChan).2 = .error e) : (trsShmAllocPhySq s sqChan).1 = s := by
  unfold trsShmAllocPhySq at h ⊢
  split_ifs at h ⊢
  cases sqChan with
  | error _ => rfl
  | ok c => simp at h

theorem trsShmAllocPhySq_ref {sqChan : Except Errno ShmChan} (hlt : s.shm.ref + 1 < 2 ^ 32)
    (h : (trsShmAllocPhySq s sqChan).2 = .ok ()) :
    (trsShmAllocPhySq s sqChan).1.shm.ref = s.shm.ref + 1 := by
  unfold trsShmAllocPhySq at h ⊢
  split_ifs at h ⊢ with hpos
  · exact Word.add_of_lt hlt
  · cases sqChan with
    | error _ => simp at h
    | ok c =>
        have hzero : s.shm.ref = 0 := by omega
        simp [hzero]

theorem trsShmAllocPhySq_chanId (sqChan : Except Errno ShmChan) (hpos : 0 < s.shm.ref) :
    (trsShmAllocPhySq s sqChan).1.shm.chanId = s.shm.chanId := by
  simp only [trsShmAllocPhySq, if_pos hpos]

theorem trsShmAllocPhyCq_error {cqChan : Except Errno ShmChan} {e : Errno}
    (h : (trsShmAllocPhyCq s pid cqChan).2 = .error e) : (trsShmAllocPhyCq s pid cqChan).1 = s := by
  unfold trsShmAllocPhyCq at h ⊢
  split_ifs at h ⊢
  · rfl
  · cases cqChan with
    | error _ => rfl
    | ok c => simp at h

@[simp] theorem trsShmAllocPhyCq_shm (cqChan : Except Errno ShmChan) :
    (trsShmAllocPhyCq s pid cqChan).1.shm = s.shm := by
  unfold trsShmAllocPhyCq
  split_ifs
  · rfl
  · cases cqChan <;> rfl

/-- What an allocation comes to: nothing, a reference taken and given back, or
a process attached, which an error after that takes back. -/
theorem trsShmSqcqAlloc_cases (s : ShmState) (pid : Pid) (para : ShmAllocPara)
    (env : ShmAllocEnv) :
    (trsShmSqcqAlloc s pid para env).1 = s ∨
    (trsShmAllocPhySq s env.sqChan).2 = .ok () ∧
      ((trsShmSqcqAlloc s pid para env).1 = trsShmFreePhySq (trsShmAllocPhySq s env.sqChan).1 ∨
      (trsShmAllocPhyCq (trsShmAllocPhySq s env.sqChan).1 pid env.cqChan).2 = .ok () ∧
        ((trsShmSqcqAlloc s pid para env).1 =
            (trsShmAllocPhyCq (trsShmAllocPhySq s env.sqChan).1 pid env.cqChan).1 ∨
        (trsShmSqcqAlloc s pid para env).1 = trsShmFreePhyCq (trsShmFreePhySq
            (trsShmAllocPhyCq (trsShmAllocPhySq s env.sqChan).1 pid env.cqChan).1) pid)) := by
  unfold trsShmSqcqAlloc
  split_ifs
  · exact .inl rfl
  · exact .inl rfl
  rcases hsq : trsShmAllocPhySq s env.sqChan with ⟨s₁, e | _⟩
  · have herr : (trsShmAllocPhySq s env.sqChan).1 = s := trsShmAllocPhySq_error (e := e) (by rw [hsq])
    rw [hsq] at herr
    exact .inl herr
  · refine .inr ⟨rfl, ?_⟩
    rcases hcq : trsShmAllocPhyCq s₁ pid env.cqChan with ⟨s₂, e | _⟩
    · have herr : (trsShmAllocPhyCq s₁ pid env.cqChan).1 = s₁ :=
        trsShmAllocPhyCq_error (e := e) (by rw [hcq])
      simp only [hcq] at herr
      left
      simp only [hcq, herr]
    · refine .inr ⟨rfl, ?_⟩
      cases env.remap with
      | error _ => exact .inr (by simp [hcq])
      | ok _ =>
          cases env.notice with
          | error _ => exact .inr (by simp [hcq])
          | ok _ => exact .inl (by simp [hcq])

theorem ShmAllocEnv.fresh_sq {env : ShmAllocEnv} {live : ℤ → Bool} (h : env.fresh live = true)
    {c : ShmChan} (hc : env.sqChan = .ok c) : live c.chanId = false := by
  unfold fresh at h
  rw [hc] at h
  split at h <;> simp_all

theorem ShmAllocEnv.fresh_cq {env : ShmAllocEnv} (h : env.fresh s.live = true)
    {c : ShmChan} (hc : env.cqChan = .ok c) :
    (trsShmAllocPhySq s env.sqChan).1.live c.chanId = false := by
  unfold fresh at h
  rw [hc] at h
  unfold trsShmAllocPhySq
  split_ifs
  · split at h <;> simp_all
  · cases hsq : env.sqChan with
    | error e => simpa [hsq] using h
    | ok d =>
        rw [hsq] at h
        simp only [ne_eq, decide_not, Bool.and_eq_true, Bool.not_eq_eq_eq_not, Bool.not_true,
          decide_eq_false_iff_not] at h
        rw [← h.1.2]
        refine Function.update_of_ne ?_ ..
        omega

theorem ShmCount.small (h : ShmCount 0 s) : s.shm.ref ≤ 2 ^ 31 := by
  have hle := attachedNum_le h.nodup
  have href := h.ref_eq
  omega

/-- An attached process leaves. -/
theorem ShmCount.leave (h : ShmCount 0 s) (hpid : pid ∈ s.procs) (ha : s.attached pid = true) :
    ShmCount 0 (trsShmFreePhyCq (trsShmFreePhySq s) pid) := by
  have hpos := attachedNum_pos hpid ha
  have href := h.ref_eq
  have hsq : ShmCount (0 - 1) (trsShmFreePhySq s) := h.freePhySq (by omega) (by omega)
  exact hsq.freePhyCq (by simpa using hpid) (by simpa using ha)

theorem trsShmAllocPhyCq_attached {cqChan : Except Errno ShmChan}
    (hok : (trsShmAllocPhyCq s pid cqChan).2 = .ok ()) :
    (trsShmAllocPhyCq s pid cqChan).1.procs = s.procs ∧
      (trsShmAllocPhyCq s pid cqChan).1.attached pid = true := by
  unfold trsShmAllocPhyCq at hok ⊢
  split_ifs at hok ⊢
  cases cqChan with
  | error e => simp at hok
  | ok c => exact ⟨rfl, by simp [attached, setProc]⟩

theorem ShmCount.alloc (h : ShmCount 0 s) (hpid : pid ∈ s.procs) {env : ShmAllocEnv}
    (hfresh : env.fresh s.live = true) (para : ShmAllocPara) :
    ShmCount 0 (trsShmSqcqAlloc s pid para env).1 := by
  have hsmall := h.small
  rcases trsShmSqcqAlloc_cases s pid para env with heq | ⟨hsq, hrest⟩
  · rwa [heq]
  have hone := h.allocPhySq (fun c hc => ShmAllocEnv.fresh_sq hfresh hc) hsq
  have href := trsShmAllocPhySq_ref (by omega) hsq
  have hin : pid ∈ (trsShmAllocPhySq s env.sqChan).1.procs := by
    rwa [trsShmAllocPhySq_procs]
  rcases hrest with heq | ⟨hcq, heq | heq⟩
  · rw [heq]
    exact hone.freePhySq (by omega) le_rfl
  · rw [heq]
    exact hone.allocPhyCq hin (fun c hc => ShmAllocEnv.fresh_cq hfresh hc) hcq
  · have hzero := hone.allocPhyCq hin (fun c hc => ShmAllocEnv.fresh_cq hfresh hc) hcq
    obtain ⟨hprocs, hatt⟩ := trsShmAllocPhyCq_attached hcq
    rw [heq]
    exact hzero.leave (hprocs ▸ hin) hatt

/-- An allocation gives back at most the reference that it took. -/
theorem trsShmSqcqAlloc_ref (hsmall : s.shm.ref ≤ 2 ^ 31) (para : ShmAllocPara)
    (env : ShmAllocEnv) : s.shm.ref ≤ (trsShmSqcqAlloc s pid para env).1.shm.ref := by
  rcases trsShmSqcqAlloc_cases s pid para env with heq | ⟨hsq, hrest⟩
  · rw [heq]
  have href := trsShmAllocPhySq_ref (by omega) hsq
  have hback : (trsShmFreePhySq (trsShmAllocPhySq s env.sqChan).1).shm.ref = s.shm.ref := by
    rw [trsShmFreePhySq_ref (by omega) (by omega)]
    omega
  rcases hrest with heq | ⟨hcq, heq | heq⟩
  · rw [heq, hback]
  · rw [heq, trsShmAllocPhyCq_shm]
    omega
  · rw [heq, trsShmFreePhyCq_shm, trsShmFreePhySq_ref] <;> rw [trsShmAllocPhyCq_shm] <;> omega

theorem trsShmSqcqAlloc_chanId (hpos : 0 < s.shm.ref) (para : ShmAllocPara)
    (env : ShmAllocEnv) :
    (trsShmSqcqAlloc s pid para env).1.shm.chanId = s.shm.chanId ∨
      (trsShmSqcqAlloc s pid para env).1.shm.chanId = -1 := by
  have hchan := trsShmAllocPhySq_chanId env.sqChan hpos
  rcases trsShmSqcqAlloc_cases s pid para env with heq | ⟨-, heq | ⟨-, heq | heq⟩⟩
  · exact .inl (by rw [heq])
  · have hfree := trsShmFreePhySq_chanId (trsShmAllocPhySq s env.sqChan).1
    rwa [heq, ← hchan]
  · exact .inl (by rw [heq, trsShmAllocPhyCq_shm, hchan])
  · have hfree := trsShmFreePhySq_chanId
      (trsShmAllocPhyCq (trsShmAllocPhySq s env.sqChan).1 pid env.cqChan).1
    rwa [trsShmAllocPhyCq_shm, hchan, ← trsShmFreePhyCq_shm _ pid, ← heq] at hfree

/-! ## Runs -/

/-- A free that passes its checks, and that the device accepts, comes from an
attached process. -/
def freeByAttached (s : ShmState) : ShmOp → Prop
  | .free pid sqId cqId notice =>
      shmFreeParaCheck s pid sqId cqId = true → notice.isOk = true → s.attached pid = true
  | _ => True

instance (s : ShmState) : ∀ a, Decidable (freeByAttached s a)
  | .free pid sqId cqId notice =>
      inferInstanceAs (Decidable (shmFreeParaCheck s pid sqId cqId = true → notice.isOk = true →
        s.attached pid = true))
  | .create _ => isTrue trivial
  | .alloc _ _ _ => isTrue trivial
  | .recycle _ _ => isTrue trivial
  | .destroy _ => isTrue trivial

theorem trsShmSqcqFree_cases (s : ShmState) (pid : Pid) (sqId cqId : ℕ)
    (notice : Except Errno Unit) :
    (trsShmSqcqFree s pid sqId cqId notice).1 = s ∨
    (shmFreeParaCheck s pid sqId cqId = true ∧ notice.isOk = true) ∧
      (trsShmSqcqFree s pid sqId cqId notice).1 = trsShmFreePhyCq (trsShmFreePhySq s) pid := by
  unfold trsShmSqcqFree
  split_ifs with hcheck
  · exact .inl rfl
  · cases notice with
    | error _ => exact .inl rfl
    | ok _ => exact .inr ⟨⟨by simpa using hcheck, rfl⟩, by dsimp only⟩

theorem trsProcTsResRecycle_cases (s : ShmState) (pid : Pid) (check : Except Errno Unit) :
    trsProcTsResRecycle s pid check = s ∨ s.attached pid = true ∧
      trsProcTsResRecycle s pid check = trsShmFreePhyCq (trsShmFreePhySq s) pid := by
  cases check with
  | error _ => exact .inl rfl
  | ok _ =>
      simp only [trsProcTsResRecycle]
      split_ifs with hatt
      · exact .inr ⟨attached_eq_true.mpr hatt, rfl⟩
      · exact .inl rfl

theorem ShmCount.create (h : ShmCount 0 s) (hpid : pid ∉ s.procs) :
    ShmCount 0 { s.setProc pid { chanId := -1, cqid := 0 } with procs := pid :: s.procs } := by
  have hold (j : Pid) (hj : j ∈ s.procs) :
      (s.setProc pid { chanId := -1, cqid := 0 }).proc j = s.proc j :=
    Function.update_of_ne (ne_of_mem_of_not_mem hj hpid) ..
  have hnew : (s.setProc pid { chanId := -1, cqid := 0 }).attached pid = false := by
    simp [attached, setProc]
  have hatt (j : Pid) (hj : j ∈ s.procs) :
      (s.setProc pid { chanId := -1, cqid := 0 }).attached j = s.attached j := by
    rw [attached, hold j hj, attached]
  have hmem {j : Pid} (hj : j ∈ pid :: s.procs)
      (ha : (s.setProc pid { chanId := -1, cqid := 0 }).attached j = true) : j ∈ s.procs := by
    rcases List.mem_cons.mp hj with rfl | hj
    · rw [hnew] at ha
      cases ha
    · exact hj
  refine ⟨List.nodup_cons.mpr ⟨hpid, h.nodup⟩, ?_, h.shared, h.unshared, fun p hp ha => ?_,
    fun p hp q hq ha hb => ?_⟩
  · change (s.shm.ref : ℤ) = ((pid :: s.procs).countP
      (s.setProc pid { chanId := -1, cqid := 0 }).attached : ℕ) + 0
    rw [List.countP_cons_of_neg (by simp [hnew]), KeyCount.congr hatt]
    exact h.ref_eq
  · change s.live ((s.setProc pid _).proc p).chanId = true ∧
      ((s.setProc pid _).proc p).chanId ≠ s.shm.chanId
    have hp' := hmem hp ha
    rw [hold p hp']
    exact h.own p hp' ((hatt p hp').symm.trans ha)
  · have hp' := hmem hp ha
    have hq' := hmem hq hb
    intro heq
    change ((s.setProc pid _).proc p).chanId = ((s.setProc pid _).proc q).chanId at heq
    rw [hold p hp', hold q hq'] at heq
    exact h.sole p hp' q hq' ((hatt p hp').symm.trans ha) ((hatt q hq').symm.trans hb) heq

theorem ShmCount.destroy (h : ShmCount 0 s) (hatt : (s.proc pid).chanId < 0) :
    ShmCount 0 { s with procs := s.procs.erase pid } := by
  refine ⟨h.nodup.erase pid, ?_, h.shared, h.unshared,
    fun p hp => h.own p (List.mem_of_mem_erase hp),
    fun p hp q hq => h.sole p (List.mem_of_mem_erase hp) q (List.mem_of_mem_erase hq)⟩
  change (s.shm.ref : ℤ) = ((s.procs.erase pid).countP s.attached : ℕ) + 0
  rw [KeyCount.erase (attached_eq_false.mpr hatt)]
  exact h.ref_eq

theorem ShmCount.step (h : ShmCount 0 s) {a : ShmOp} (hok : freeByAttached s a)
    (hstep : shmStep s a = some t) : ShmCount 0 t := by
  cases a with
  | create pid =>
      simp only [shmStep, Option.ite_none_left_eq_some, Option.some.injEq] at hstep
      obtain ⟨hpid, rfl⟩ := hstep
      exact h.create hpid
  | alloc pid para env =>
      simp only [shmStep, Option.ite_none_right_eq_some, Option.some.injEq] at hstep
      obtain ⟨⟨hpid, hfresh⟩, rfl⟩ := hstep
      exact h.alloc hpid hfresh para
  | free pid sqId cqId notice =>
      simp only [shmStep, Option.ite_none_right_eq_some, Option.some.injEq] at hstep
      obtain ⟨hpid, rfl⟩ := hstep
      rcases trsShmSqcqFree_cases s pid sqId cqId notice with heq | ⟨⟨hcheck, hnotice⟩, heq⟩
      · rwa [heq]
      · rw [heq]
        exact h.leave hpid (hok hcheck hnotice)
  | recycle pid check =>
      simp only [shmStep, Option.ite_none_right_eq_some, Option.some.injEq] at hstep
      obtain ⟨hpid, rfl⟩ := hstep
      rcases trsProcTsResRecycle_cases s pid check with heq | ⟨hatt, heq⟩
      · rwa [heq]
      · rw [heq]
        exact h.leave hpid hatt
  | destroy pid =>
      simp only [shmStep, Option.ite_none_right_eq_some, Option.some.injEq] at hstep
      obtain ⟨⟨-, hatt⟩, rfl⟩ := hstep
      exact h.destroy hatt

/-- A process that is not attached does not lower the count. -/
theorem ShmCount.ref_le (h : ShmCount 0 s) {a : ShmOp} (hok : freeByAttached s a)
    (hstep : shmStep s a = some t) (hatt : s.attached a.pid = false) :
    s.shm.ref ≤ t.shm.ref := by
  cases a with
  | create pid =>
      simp only [shmStep, Option.ite_none_left_eq_some, Option.some.injEq] at hstep
      obtain ⟨-, rfl⟩ := hstep
      exact le_rfl
  | alloc pid para env =>
      simp only [shmStep, Option.ite_none_right_eq_some, Option.some.injEq] at hstep
      obtain ⟨-, rfl⟩ := hstep
      exact trsShmSqcqAlloc_ref h.small para env
  | free pid sqId cqId notice =>
      simp only [shmStep, Option.ite_none_right_eq_some, Option.some.injEq] at hstep
      obtain ⟨-, rfl⟩ := hstep
      rcases trsShmSqcqFree_cases s pid sqId cqId notice with heq | ⟨⟨hcheck, hnotice⟩, -⟩
      · rw [heq]
      · exact absurd (hok hcheck hnotice) (by simpa [ShmOp.pid] using hatt)
  | recycle pid check =>
      simp only [shmStep, Option.ite_none_right_eq_some, Option.some.injEq] at hstep
      obtain ⟨-, rfl⟩ := hstep
      rcases trsProcTsResRecycle_cases s pid check with heq | ⟨hatt', -⟩
      · rw [heq]
      · exact absurd hatt' (by simpa [ShmOp.pid] using hatt)
  | destroy pid =>
      simp only [shmStep, Option.ite_none_right_eq_some, Option.some.injEq] at hstep
      obtain ⟨-, rfl⟩ := hstep
      exact le_rfl

/-- While the count is positive, the shared channel stays or is destroyed. -/
theorem shmStep_chanId (hpos : 0 < s.shm.ref) {a : ShmOp} (hstep : shmStep s a = some t) :
    t.shm.chanId = s.shm.chanId ∨ t.shm.chanId = -1 := by
  cases a with
  | create pid =>
      simp only [shmStep, Option.ite_none_left_eq_some, Option.some.injEq] at hstep
      obtain ⟨-, rfl⟩ := hstep
      exact .inl rfl
  | alloc pid para env =>
      simp only [shmStep, Option.ite_none_right_eq_some, Option.some.injEq] at hstep
      obtain ⟨-, rfl⟩ := hstep
      exact trsShmSqcqAlloc_chanId hpos para env
  | free pid sqId cqId notice =>
      simp only [shmStep, Option.ite_none_right_eq_some, Option.some.injEq] at hstep
      obtain ⟨-, rfl⟩ := hstep
      rcases trsShmSqcqFree_cases s pid sqId cqId notice with heq | ⟨-, heq⟩
      · exact .inl (by rw [heq])
      · rw [heq, trsShmFreePhyCq_shm]
        exact trsShmFreePhySq_chanId s
  | recycle pid check =>
      simp only [shmStep, Option.ite_none_right_eq_some, Option.some.injEq] at hstep
      obtain ⟨-, rfl⟩ := hstep
      rcases trsProcTsResRecycle_cases s pid check with heq | ⟨-, heq⟩
      · exact .inl (by rw [heq])
      · rw [heq, trsShmFreePhyCq_shm]
        exact trsShmFreePhySq_chanId s
  | destroy pid =>
      simp only [shmStep, Option.ite_none_right_eq_some, Option.some.injEq] at hstep
      obtain ⟨-, rfl⟩ := hstep
      exact .inl rfl

theorem ShmCount.chanId_iff (h : ShmCount 0 s) : 0 ≤ s.shm.chanId ↔ 0 < s.attachedNum := by
  have href := h.ref_eq
  rcases Nat.eq_zero_or_pos s.shm.ref with hzero | hpos
  · have hchan := h.unshared hzero
    omega
  · have hchan := h.shared hpos
    omega

/-- What the count promises: it is the number of attached processes, which all
have their channels, and the shared channel is there for them. -/
structure SharedByAttached (s : ShmState) : Prop where
  ref_eq : s.shm.ref = s.attachedNum
  chanId_iff : 0 ≤ s.shm.chanId ↔ 0 < s.attachedNum
  live : 0 ≤ s.shm.chanId → s.live s.shm.chanId = true
  own : ∀ p ∈ s.procs, s.attached p = true → s.live (s.proc p).chanId = true

/-- What a call does to it: a process that is not attached does not lower the
count, the shared channel goes when the last attached process leaves, and stays
as it is until then. -/
structure SharedUntilLast (s t : ShmState) (pid : Pid) : Prop where
  ref_le : s.attached pid = false → s.shm.ref ≤ t.shm.ref
  gone_iff : 0 ≤ s.shm.chanId ∧ t.shm.chanId < 0 ↔ 0 < s.attachedNum ∧ t.attachedNum = 0
  same : 0 < s.attachedNum → 0 < t.attachedNum → t.shm.chanId = s.shm.chanId

theorem ShmCount.shared_by_attached (h : ShmCount 0 s) : SharedByAttached s where
  ref_eq := by
    have href := h.ref_eq
    omega
  chanId_iff := h.chanId_iff
  live hchan := by
    refine (h.shared ?_).2
    have href := h.ref_eq
    have hpos := h.chanId_iff.mp hchan
    omega
  own p hp ha := (h.own p hp ha).1

theorem shm_ref_counts_attached (h : shmMachine.ReachIf freeByAttached s) :
    SharedByAttached s ∧ ∀ a t, freeByAttached s a → shmStep s a = some t →
      SharedUntilLast s t a.pid := by
  have hcount : ShmCount 0 s := by
    refine h.invariant (fun s hs => ?_) fun s a t hs hok hstep => hs.step hok hstep
    obtain ⟨stars, rfl⟩ := hs
    exact .init stars
  refine ⟨hcount.shared_by_attached, fun a t hok hstep => ?_⟩
  have hnext := hcount.step hok hstep
  have hsrc := hcount.chanId_iff
  have hdst := hnext.chanId_iff
  refine ⟨hcount.ref_le hok hstep, ?_, fun hs ht => ?_⟩
  · constructor
    · rintro ⟨hs, ht⟩
      exact ⟨hsrc.mp hs, by omega⟩
    · rintro ⟨hs, ht⟩
      exact ⟨hsrc.mpr hs, by omega⟩
  · have href := hcount.ref_eq
    rcases shmStep_chanId (by omega) hstep with heq | heq
    · exact heq
    · have hchan := hdst.mpr ht
      omega

/-- A process allocates; another one, which never did, frees the queue. -/
def foreignFreeRun : List ShmOp :=
  let para : ShmAllocPara :=
    { sqeSize := 64, sqeDepth := 1024, cqeSize := 16, cqeDepth := 1024, sqQueAddr := 4096 }
  let env : ShmAllocEnv :=
    { sqChan := .ok { chanId := 0, qid := 5 }, cqChan := .ok { chanId := 1, qid := 6 }
      remap := .ok (), notice := .ok () }
  [.create 1, .create 2, .alloc 1 para env, .free 2 5 0 (.ok ())]

theorem foreign_free_tears_down :
    ¬ ∀ s, shmMachine.Reach s → SharedByAttached s := by
  intro hall
  have hrun : shmMachine.Reach (shmMachine.final (shmInit false) foreignFreeRun) :=
    Machine.Reach.final (.start ⟨false, rfl⟩) (by decide +kernel)
  have href := (hall _ hrun).ref_eq
  revert href
  decide +kernel

theorem shm_ref_counts_attached_first :
    SharedByAttached (shmMachine.final (shmInit false) (foreignFreeRun.take 3)) ∧
      (shmMachine.final (shmInit false) (foreignFreeRun.take 3)).shm.ref = 1 :=
  ⟨(shm_ref_counts_attached (Machine.ReachIf.final (.start ⟨false, rfl⟩) (by decide +kernel)
    (by decide +kernel))).1, by decide +kernel⟩

end OpiaiKernel.Trs
