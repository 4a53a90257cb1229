import Mathlib.Data.Set.Function
import OpiaiKernel.Trs.ProcRecycle
import OpiaiKernel.Trs.ResCount

/-!
# What a callback frees

A callback of the walks frees ids of the process and destroys the channel of a
queue that it frees.  What the process does not own stays as it is, and so do
the queues that it still owns; what was destroyed and what the process still
holds add up to the same channels.
-/

namespace OpiaiKernel.Trs.Recycle

variable {proc p : TrsProc} {s t u : TsInst} {res r : TrsRes} {ty ty' i j : ℕ}

namespace TsInst

@[simp] theorem delRes_stars : (s.delRes proc res).stars = s.stars := by
  unfold delRes; split <;> rfl

@[simp] theorem delRes_partFeatur : (s.delRes proc res).partFeatur = s.partFeatur := by
  unfold delRes; split <;> rfl

@[simp] theorem delRes_releaseCheck : (s.delRes proc res).releaseCheck = s.releaseCheck := by
  unfold delRes; split <;> rfl

@[simp] theorem delRes_sqCtx : (s.delRes proc res).sqCtx = s.sqCtx := by
  unfold delRes; split <;> rfl

@[simp] theorem delRes_cqCtx : (s.delRes proc res).cqCtx = s.cqCtx := by
  unfold delRes; split <;> rfl

@[simp] theorem delRes_swSqCtx : (s.delRes proc res).swSqCtx = s.swSqCtx := by
  unfold delRes; split <;> rfl

@[simp] theorem delRes_swCqCtx : (s.delRes proc res).swCqCtx = s.swCqCtx := by
  unfold delRes; split <;> rfl

@[simp] theorem delRes_cbCq : (s.delRes proc res).cbCq = s.cbCq := by
  unfold delRes; split <;> rfl

@[simp] theorem delRes_shmCtx : (s.delRes proc res).shmCtx = s.shmCtx := by
  unfold delRes; split <;> rfl

@[simp] theorem delRes_procShm : (s.delRes proc res).procShm = s.procShm := by
  unfold delRes; split <;> rfl

@[simp] theorem delRes_destroyed : (s.delRes proc res).destroyed = s.destroyed := by
  unfold delRes; split <;> rfl

theorem resPut_maxId (s : ResState) (res : TrsRes) : (trsResPut s res).maxId = s.maxId := by
  unfold trsResPut
  dsimp only
  split_ifs <;> rfl

theorem resPut_ids_of_ne (s : ResState) (hr : r ≠ res) :
    (trsResPut s res).ids r = s.ids r := by
  unfold trsResPut
  dsimp only
  split_ifs
  · rfl
  · rfl
  · exact ResState.setIds_of_ne _ hr
  · exact ResState.setIds_of_ne _ hr

theorem resPut_status (s : ResState) (res : TrsRes) :
    ((trsResPut s res).ids res).status = (s.ids res).status := by
  unfold trsResPut
  dsimp only
  split_ifs
  · rfl
  · rfl
  all_goals
    change ((s.setIds res _).ids res).status = _
    rw [ResState.setIds_self]

@[simp] theorem delRes_maxId : (s.delRes proc res).res.maxId = s.res.maxId := by
  unfold delRes
  split
  · dsimp only
    rw [resPut_maxId]
    unfold trsProcDelRes
    split <;> rfl
  · rfl

/-- The entry of another id stays. -/
theorem delRes_ids (h : s.has proc r = false ∨ r ≠ res) :
    (s.delRes proc res).res.ids r = s.res.ids r := by
  unfold delRes
  split
  next hhas =>
    have hr : r ≠ res := by
      rcases h with h | h
      · rintro rfl
        rw [h] at hhas
        cases hhas
      · exact h
    dsimp only
    rw [resPut_ids_of_ne _ hr]
    have hmatch : trsIsResPidMatch s.res proc res = true := hhas
    unfold trsProcDelRes
    rw [if_pos hmatch]
    exact ResState.setIds_of_ne _ hr
  · rfl

/-- A freed id is marked, also when others refer to it. -/
theorem status_delRes (hhas : s.has proc res = true) :
    ((s.delRes proc res).res.ids res).status = .del := by
  have hmatch : trsIsResPidMatch s.res proc res = true := hhas
  have hdel : (trsProcDelRes s.res proc res).ids res = { s.res.ids res with status := .del } := by
    unfold trsProcDelRes
    rw [if_pos hmatch]
    exact ResState.setIds_self ..
  have hstatus := resPut_status
    { trsProcDelRes s.res proc res with
      freeing := (trsProcDelRes s.res proc res).freeing.erase res } res
  rw [hdel] at hstatus
  rw [delRes, if_pos hhas]
  exact hstatus

/-- The id is freed, the others are owned as before. -/
theorem has_delRes (r : TrsRes) :
    (s.delRes proc res).has proc r = (s.has proc r && decide (r ≠ res)) := by
  rcases eq_or_ne r res with rfl | hr
  · rw [decide_eq_false (by simp), Bool.and_false]
    by_cases hhas : s.has proc r = true
    · simp [has, trsIsResPidMatch, trsIsIdPidMatch, status_delRes hhas]
    · rw [delRes, if_neg hhas]
      simpa using hhas
  · simp [has, trsIsResPidMatch, delRes_ids (.inr hr), hr]

theorem delRes_resInv (hproc : proc.pid ≠ 0) (h : ResInv [] s.res) :
    ResInv [] (s.delRes proc res).res := by
  unfold delRes
  split
  next hhas =>
    have hmem : res ∈ (trsProcDelRes s.res proc res).freeing := by
      have hmatch : trsIsResPidMatch s.res proc res = true := hhas
      unfold trsProcDelRes
      rw [if_pos hmatch]
      exact List.mem_cons_self
    exact ((h.free hproc res).fromFreeing hmem).put
  · exact h

/-- The counter of the process is the number of its ids. -/
theorem has_false_of_resNum (hproc : proc.pid ≠ 0) (h : ResInv [] s.res)
    (hnum : s.resNum proc ty = 0) (i : ℕ) : s.has proc (ty, i) = false := by
  have hcount := h.nums.currentIdNum proc ty hproc
  have hzero : s.res.idNum (TrsResIds.allocatedBy proc) ty = 0 := by
    have : s.res.currentIdNum proc ty = 0 := hnum
    omega
  rw [ResState.idNum, List.countP_eq_zero] at hzero
  by_cases hi : i < s.res.maxId ty
  · have hnot := hzero i (List.mem_range.mpr hi)
    simp only [TrsResIds.allocatedBy, Bool.not_eq_true] at hnot
    simp [has, trsIsResPidMatch, hnot]
  · simp [has, trsIsResPidMatch, hi]

theorem match_eq_has (hi : i < s.res.maxId ty) :
    trsIsIdPidMatch (s.res.ids (ty, i)) proc = s.has proc (ty, i) := by
  simp [has, trsIsResPidMatch, hi]

/-- How often the process holds a channel with its queues. -/
def chanNum (proc : TrsProc) (s : TsInst) (c : ℤ) : ℕ :=
  (List.range (s.res.maxId trsHwSq)).countP
      (fun i => s.has proc (trsHwSq, i) && decide ((s.sqCtx i).chanId = c)) +
    (if s.stars then 0 else (List.range (s.res.maxId trsHwCq)).countP
      fun j => s.has proc (trsHwCq, j) && decide (s.cqCtx j = c)) +
    (List.range (s.res.maxId trsSwSq)).countP
      (fun i => s.has proc (trsSwSq, i) && decide ((s.swSqCtx i).chanId = c))

end TsInst

/-- What a function frees of the process, of types that satisfy `T`: the others
keep what they have, and each channel is destroyed as often as the process gives
up a queue that holds it. -/
structure Recycling (proc : TrsProc) (T : ℕ → Prop) (s t : TsInst) : Prop where
  maxId : t.res.maxId = s.res.maxId
  stars : t.stars = s.stars
  partFeatur : t.partFeatur = s.partFeatur
  releaseCheck : t.releaseCheck = s.releaseCheck
  mono : ∀ r, t.has proc r = true → s.has proc r = true
  ids : ∀ r, ¬ T r.1 ∨ s.has proc r = false ∨ t.has proc r = true → t.res.ids r = s.res.ids r
  sqCtx : ∀ i, s.has proc (trsHwSq, i) = false ∨ t.has proc (trsHwSq, i) = true →
    t.sqCtx i = s.sqCtx i
  cqCtx : ∀ j, s.has proc (trsHwCq, j) = false ∨ t.has proc (trsHwCq, j) = true →
    t.cqCtx j = s.cqCtx j
  swSqCtx : t.swSqCtx = s.swSqCtx
  swCqCtx : t.swCqCtx = s.swCqCtx
  cbCq : t.cbCq = s.cbCq
  shmCtx : t.shmCtx = s.shmCtx
  procShm : t.procShm = s.procShm
  chans : ∀ c, t.destroyed.count c + t.chanNum proc c = s.destroyed.count c + s.chanNum proc c

namespace Recycling

variable {T : ℕ → Prop}

theorem refl (s : TsInst) : Recycling proc T s s where
  maxId := rfl
  stars := rfl
  partFeatur := rfl
  releaseCheck := rfl
  mono := fun _ h => h
  ids := fun _ _ => rfl
  sqCtx := fun _ _ => rfl
  cqCtx := fun _ _ => rfl
  swSqCtx := rfl
  swCqCtx := rfl
  cbCq := rfl
  shmCtx := rfl
  procShm := rfl
  chans := fun _ => rfl

theorem not_has (h : Recycling proc T s t) (hr : s.has proc r = false) :
    t.has proc r = false := by
  rw [← Bool.not_eq_true] at hr ⊢
  exact fun hp => hr (h.mono r hp)

theorem trans (h : Recycling proc T s t) (h' : Recycling proc T t u) : Recycling proc T s u where
  maxId := h'.maxId.trans h.maxId
  stars := h'.stars.trans h.stars
  partFeatur := h'.partFeatur.trans h.partFeatur
  releaseCheck := h'.releaseCheck.trans h.releaseCheck
  mono := fun r hr => h.mono r (h'.mono r hr)
  ids := fun r hr => (h'.ids r (hr.imp_right (.imp_left h.not_has))).trans
    (h.ids r (hr.imp_right (.imp_right (h'.mono r))))
  sqCtx := fun i hi => (h'.sqCtx i (hi.imp_left h.not_has)).trans
    (h.sqCtx i (hi.imp_right (h'.mono _)))
  cqCtx := fun j hj => (h'.cqCtx j (hj.imp_left h.not_has)).trans
    (h.cqCtx j (hj.imp_right (h'.mono _)))
  swSqCtx := h'.swSqCtx.trans h.swSqCtx
  swCqCtx := h'.swCqCtx.trans h.swCqCtx
  cbCq := h'.cbCq.trans h.cbCq
  shmCtx := h'.shmCtx.trans h.shmCtx
  procShm := h'.procShm.trans h.procShm
  chans := fun c => (h'.chans c).trans (h.chans c)

/-- A type that is not freed is owned as before. -/
theorem has_eq (h : Recycling proc T s t) (hr : ¬ T r.1) : t.has proc r = s.has proc r := by
  simp [TsInst.has, trsIsResPidMatch, h.ids r (.inl hr), h.maxId]

end Recycling

/-- The ids of a type that the process owns. -/
def TsInst.owned (proc : TrsProc) (s : TsInst) (ty : ℕ) : Set ℕ := {i | s.has proc (ty, i) = true}

/-- The counters are right, and the queues of the process that come in pairs refer
to each other. -/
structure RecycleInv (proc : TrsProc) (s : TsInst) : Prop where
  res : ResInv [] s.res
  hw : s.stars = true →
    Set.BijOn (fun i => (s.sqCtx i).cqid) (s.owned proc trsHwSq) (s.owned proc trsHwCq)
  cb : Set.BijOn s.cbCq (s.owned proc trsCbCq) (s.owned proc trsCbSq)

/-! ### Ids without a channel -/

/-- The types whose ids have no channel. -/
def NoChan (ty : ℕ) : Prop := ty ≠ trsHwSq ∧ ty ≠ trsHwCq ∧ ty ≠ trsSwSq

theorem has_delRes_of_ne (hty : ty ≠ ty') :
    (s.delRes proc (ty', j)).has proc (ty, i) = s.has proc (ty, i) := by
  simp [TsInst.has_delRes, hty]

theorem Recycling.delRes {T : ℕ → Prop} (hT : T ty) (hchan : NoChan ty) :
    Recycling proc T s (s.delRes proc (ty, j)) where
  maxId := by simp
  stars := by simp
  partFeatur := by simp
  releaseCheck := by simp
  mono := fun r hr => by
    rw [TsInst.has_delRes, Bool.and_eq_true] at hr
    exact hr.1
  ids := fun r hr => by
    rcases hr with hr | hr | hr
    · refine TsInst.delRes_ids (.inr ?_)
      rintro rfl
      exact hr hT
    · exact TsInst.delRes_ids (.inl hr)
    · rw [TsInst.has_delRes, Bool.and_eq_true, decide_eq_true_iff] at hr
      exact TsInst.delRes_ids (.inr hr.2)
  sqCtx := by simp
  cqCtx := by simp
  swSqCtx := by simp
  swCqCtx := by simp
  cbCq := by simp
  shmCtx := by simp
  procShm := by simp
  chans := fun c => by
    simp [TsInst.chanNum, has_delRes_of_ne hchan.1.symm, has_delRes_of_ne hchan.2.1.symm,
      has_delRes_of_ne hchan.2.2.symm]

theorem owned_delRes_self :
    (s.delRes proc (ty, i)).owned proc ty = s.owned proc ty \ {i} := by
  ext j
  simp [TsInst.owned, TsInst.has_delRes]

theorem owned_delRes_of_ne (hty : ty ≠ ty') :
    (s.delRes proc (ty', j)).owned proc ty = s.owned proc ty := by
  ext i
  simp [TsInst.owned, has_delRes_of_ne hty]

/-- An id of a type without pairs is freed. -/
theorem RecycleInv.delRes (hproc : proc.pid ≠ 0) (h : RecycleInv proc s)
    (hty : ty ≠ trsHwSq ∧ ty ≠ trsHwCq ∧ ty ≠ trsCbCq ∧ ty ≠ trsCbSq) :
    RecycleInv proc (s.delRes proc (ty, j)) where
  res := TsInst.delRes_resInv hproc h.res
  hw := fun hstars => by
    rw [owned_delRes_of_ne hty.1.symm, owned_delRes_of_ne hty.2.1.symm, TsInst.delRes_sqCtx]
    exact h.hw (by simpa using hstars)
  cb := by
    rw [owned_delRes_of_ne hty.2.2.1.symm, owned_delRes_of_ne hty.2.2.2.symm,
      TsInst.delRes_cbCq]
    exact h.cb

/-! ### The callbacks -/

/-- A call frees the id that it is called for. -/
structure Freed (proc : TrsProc) (T : ℕ → Prop) (s t : TsInst) (res : TrsRes) : Prop where
  rel : Recycling proc T s t
  inv : RecycleInv proc t
  gone : t.has proc res = false

theorem has_delRes_self : (s.delRes proc res).has proc res = false := by
  rw [TsInst.has_delRes, decide_eq_false (by simp), Bool.and_false]

theorem trsResIdRecycle_frees (hproc : proc.pid ≠ 0) (h : RecycleInv proc s) (hty : ty < trsHwSq) :
    Freed proc (· < trsSwSq) s (trsResIdRecycle proc s ty i) (ty, i) := by
  simp only [trsHwSq] at hty
  refine ⟨.delRes ?_ ?_, h.delRes hproc ?_, has_delRes_self⟩
  all_goals simp only [trsSwSq, NoChan, trsHwSq, trsHwCq, trsCbCq, trsCbSq]; omega

/-- The types that are freed at the release. -/
def ReleaseType (ty : ℕ) : Prop := ty = trsLogicCq ∨ ty = trsCbCq ∨ ty = trsCbSq

theorem trsLogicCqRecycle_frees (ty : ℕ) (hproc : proc.pid ≠ 0) (h : RecycleInv proc s)
    (hhas : s.has proc (trsLogicCq, i) = true) :
    Freed proc ReleaseType s (trsLogicCqRecycle proc s ty i) (trsLogicCq, i) := by
  rw [trsLogicCqRecycle, if_neg (by simpa using hhas)]
  exact ⟨.delRes (.inl rfl) ⟨by decide, by decide, by decide⟩, h.delRes hproc (by decide), has_delRes_self⟩

theorem trsCbSqcqRecycle_frees (hproc : proc.pid ≠ 0) (h : RecycleInv proc s)
    (hhas : s.has proc (trsCbCq, i) = true) :
    Freed proc ReleaseType s (trsCbSqcqRecycle proc s trsCbCq i) (trsCbCq, i) := by
  rw [trsCbSqcqRecycle, if_pos rfl, trsCbSqcqFree, if_neg (by simpa using hhas), if_neg (by simp)]
  refine ⟨(Recycling.delRes (.inr (.inl rfl)) ⟨by decide, by decide, by decide⟩).trans
    (.delRes (.inr (.inr rfl)) ⟨by decide, by decide, by decide⟩), ?_, ?_⟩
  · refine ⟨TsInst.delRes_resInv hproc (TsInst.delRes_resInv hproc h.res), fun hstars => ?_, ?_⟩
    · rw [owned_delRes_of_ne (by decide), owned_delRes_of_ne (by decide),
        owned_delRes_of_ne (by decide), owned_delRes_of_ne (by decide)]
      simpa using h.hw (by simpa using hstars)
    · rw [owned_delRes_of_ne (by decide), owned_delRes_self, owned_delRes_self,
        owned_delRes_of_ne (by decide)]
      simpa using h.cb.sdiff_singleton hhas
  · rw [has_delRes_of_ne (by decide)]
    exact has_delRes_self

/-! ### Queues with a channel -/

/-- One queue is given up, the others hold what they held. -/
theorem countP_giveUp (A A' : ℕ → Bool) (ch ch' : ℕ → ℤ) {n : ℕ} (hi : i < n) (hA : A i = true)
    (hA' : A' i = false) (hother : ∀ k ≠ i, A' k = A k ∧ ch' k = ch k) (c : ℤ) :
    (List.range n).countP (fun k => A k && decide (ch k = c)) =
      (List.range n).countP (fun k => A' k && decide (ch' k = c)) + if ch i = c then 1 else 0 := by
  split_ifs with hc
  · refine KeyCount.lose List.nodup_range (List.mem_range.mpr hi) (by simp [hA, hc]) (by simp [hA'])
      fun k _ hk => ?_
    rw [(hother k hk).1, (hother k hk).2]
  · refine KeyCount.congr fun k _ => ?_
    by_cases hk : k = i
    · simp [hk, hA', hc]
    · rw [(hother k hk).1, (hother k hk).2]

theorem TsInst.has_lt (h : s.has proc (ty, i) = true) : i < s.res.maxId ty := by
  simp only [has, trsIsResPidMatch, Bool.and_eq_true, decide_eq_true_eq] at h
  exact h.1

theorem count_chanDestroy (a c : ℤ) (l : List ℤ) :
    (a :: l).count c = l.count c + if a = c then 1 else 0 := by
  rw [List.count_cons]
  simp

/-- The process gives up an SQ, and in the pair mode its CQ. -/
theorem chanNum_giveUpSq (hmax : t.res.maxId = s.res.maxId) (hmode : t.stars = s.stars)
    (hhas : s.has proc (trsHwSq, i) = true)
    (hsq : ∀ k, t.has proc (trsHwSq, k) = (s.has proc (trsHwSq, k) && decide (k ≠ i)))
    (hctx : ∀ k ≠ i, t.sqCtx k = s.sqCtx k)
    (hcq : s.stars = false → ∀ k, t.has proc (trsHwCq, k) = s.has proc (trsHwCq, k) ∧
      t.cqCtx k = s.cqCtx k)
    (hsw : ∀ k, t.has proc (trsSwSq, k) = s.has proc (trsSwSq, k))
    (hswCtx : t.swSqCtx = s.swSqCtx) (c : ℤ) :
    s.chanNum proc c = t.chanNum proc c + if (s.sqCtx i).chanId = c then 1 else 0 := by
  have giveUp := countP_giveUp (fun k => s.has proc (trsHwSq, k))
    (fun k => t.has proc (trsHwSq, k)) (fun k => (s.sqCtx k).chanId)
    (fun k => (t.sqCtx k).chanId) (TsInst.has_lt hhas) hhas (by simp [hsq])
    (fun k hk => ⟨by simp [hsq, hk], by rw [hctx k hk]⟩) c
  have keepCq : (if s.stars then 0 else (List.range (s.res.maxId trsHwCq)).countP
        fun j => t.has proc (trsHwCq, j) && decide (t.cqCtx j = c)) =
      if s.stars then 0 else (List.range (s.res.maxId trsHwCq)).countP
        fun j => s.has proc (trsHwCq, j) && decide (s.cqCtx j = c) := by
    split_ifs with hstars
    · rfl
    · refine KeyCount.congr fun j _ => ?_
      rw [(hcq (by simpa using hstars) j).1, (hcq (by simpa using hstars) j).2]
  simp only [TsInst.chanNum, hmax, hmode, keepCq, giveUp, hsw, hswCtx]
  omega

/-- Without pairs, the process gives up a CQ. -/
theorem chanNum_giveUpCq (hmax : t.res.maxId = s.res.maxId) (hmode : t.stars = s.stars)
    (hstars : s.stars = false) (hhas : s.has proc (trsHwCq, i) = true)
    (hcq : ∀ k, t.has proc (trsHwCq, k) = (s.has proc (trsHwCq, k) && decide (k ≠ i)))
    (hctx : ∀ k ≠ i, t.cqCtx k = s.cqCtx k)
    (hsq : ∀ k, t.has proc (trsHwSq, k) = s.has proc (trsHwSq, k)) (hsqCtx : t.sqCtx = s.sqCtx)
    (hsw : ∀ k, t.has proc (trsSwSq, k) = s.has proc (trsSwSq, k))
    (hswCtx : t.swSqCtx = s.swSqCtx) (c : ℤ) :
    s.chanNum proc c = t.chanNum proc c + if s.cqCtx i = c then 1 else 0 := by
  have giveUp := countP_giveUp (fun k => s.has proc (trsHwCq, k))
    (fun k => t.has proc (trsHwCq, k)) s.cqCtx t.cqCtx
    (TsInst.has_lt hhas) hhas (by simp [hcq])
    (fun k hk => ⟨by simp [hcq, hk], hctx k hk⟩) c
  simp only [TsInst.chanNum, hmax, hmode, hstars, Bool.false_eq_true, if_false, giveUp, hsq, hsqCtx,
    hsw, hswCtx]
  omega

section QueueChannels

attribute [local simp] trsHwSqcqFreePair trsHwSqcqFreeSqChan trsHwSqcqFreeCqChan
  TsInst.chanDestroy TsInst.sqCtxUninit TsInst.cqCtxUninit

/-- An SQ is freed with its CQ and their channel. -/
theorem trsHwSqcqFreePair_frees (hproc : proc.pid ≠ 0) (h : RecycleInv proc s)
    (hstars : s.stars = true) (hhas : s.has proc (trsHwSq, i) = true) :
    Freed proc (· < trsSwSq) s (trsHwSqcqFreePair proc s i (s.sqCtx i).cqid) (trsHwSq, i) := by
  have hbij := h.hw hstars
  have hcq : s.has proc (trsHwCq, (s.sqCtx i).cqid) = true := hbij.mapsTo hhas
  have hne : trsHwSq ≠ trsHwCq := by decide
  have hasT (r : TrsRes) : (trsHwSqcqFreePair proc s i (s.sqCtx i).cqid).has proc r =
      (s.has proc r && decide (r ≠ (trsHwSq, i)) && decide (r ≠ (trsHwCq, (s.sqCtx i).cqid))) := by
    change ((TsInst.delRes proc _ _).delRes proc _).has proc r = _
    rw [TsInst.has_delRes, TsInst.has_delRes]
    rfl
  have idsT (r : TrsRes) (h1 : r ≠ (trsHwSq, i)) (h2 : r ≠ (trsHwCq, (s.sqCtx i).cqid)) :
      (trsHwSqcqFreePair proc s i (s.sqCtx i).cqid).res.ids r = s.res.ids r := by
    change ((TsInst.delRes proc _ _).delRes proc _).res.ids r = _
    rw [TsInst.delRes_ids (.inr h2), TsInst.delRes_ids (.inr h1)]
    rfl
  have rel : Recycling proc (· < trsSwSq) s (trsHwSqcqFreePair proc s i (s.sqCtx i).cqid) := {
    maxId := by simp
    stars := by simp
    partFeatur := by simp
    releaseCheck := by simp
    mono := fun r hr => by
      rw [hasT, Bool.and_eq_true, Bool.and_eq_true] at hr
      exact hr.1.1
    ids := fun r hr => by
      rcases hr with hr | hr | hr
      · refine idsT r ?_ ?_
        all_goals
          rintro rfl
          simp [trsHwSq, trsHwCq, trsSwSq] at hr
      · refine idsT r ?_ ?_
        · rintro rfl
          rw [hhas] at hr
          cases hr
        · rintro rfl
          rw [hcq] at hr
          cases hr
      · rw [hasT, Bool.and_eq_true, Bool.and_eq_true, decide_eq_true_iff, decide_eq_true_iff] at hr
        exact idsT r hr.1.2 hr.2
    sqCtx := fun k hk => by
      have hki : k ≠ i := by
        rintro rfl
        rw [hasT, hhas] at hk
        simp at hk
      simp [hki]
    cqCtx := fun k hk => by
      have hki : k ≠ (s.sqCtx i).cqid := by
        rintro rfl
        rw [hasT, hcq] at hk
        simp at hk
      simp [hki]
    swSqCtx := by simp
    swCqCtx := by simp
    cbCq := by simp
    shmCtx := by simp
    procShm := by simp
    chans := fun c => by
      have num := chanNum_giveUpSq (t := trsHwSqcqFreePair proc s i (s.sqCtx i).cqid) (by simp)
        (by simp) hhas (fun k => by rw [hasT]; simp [hne]) (fun k hk => by simp [hk])
        (fun hfalse => by rw [hstars] at hfalse; cases hfalse)
        (fun k => by rw [hasT]; simp [trsHwSq, trsHwCq, trsSwSq]) (by simp) c
      have dest : (trsHwSqcqFreePair proc s i (s.sqCtx i).cqid).destroyed =
          (s.sqCtx i).chanId :: s.destroyed := by simp
      rw [dest, count_chanDestroy, num]
      omega }
  refine ⟨rel, ⟨?_, fun _ => ?_, ?_⟩, by rw [hasT]; simp⟩
  · exact TsInst.delRes_resInv hproc (TsInst.delRes_resInv hproc h.res)
  · have ownedSq : (trsHwSqcqFreePair proc s i (s.sqCtx i).cqid).owned proc trsHwSq =
        s.owned proc trsHwSq \ {i} := by
      ext k
      change _ = true ↔ _ = true ∧ _
      rw [hasT]
      simp [hne]
    have ownedCq : (trsHwSqcqFreePair proc s i (s.sqCtx i).cqid).owned proc trsHwCq =
        s.owned proc trsHwCq \ {(s.sqCtx i).cqid} := by
      ext k
      change _ = true ↔ _ = true ∧ _
      rw [hasT]
      simp [hne.symm]
    rw [ownedSq, ownedCq]
    refine (hbij.sdiff_singleton hhas).congr fun k hk => ?_
    have hki : k ≠ i := hk.2
    simp [hki]
  · have ownedCb (ty : ℕ) (h1 : ty ≠ trsHwSq) (h2 : ty ≠ trsHwCq) :
        (trsHwSqcqFreePair proc s i (s.sqCtx i).cqid).owned proc ty = s.owned proc ty := by
      ext k
      change _ = true ↔ _ = true
      rw [hasT]
      simp [h1, h2]
    rw [ownedCb _ (by decide) (by decide), ownedCb _ (by decide) (by decide), rel.cbCq]
    exact h.cb

/-- Without pairs, the `sqCtx` and `cqCtx` of a queue aside, only its id is freed; a
channel is destroyed for it. -/
theorem Freed.of_delRes (hproc : proc.pid ≠ 0) (h : RecycleInv proc s) (hstars : s.stars = false)
    (hty : ty = trsHwSq ∨ ty = trsHwCq)
    (hframe : ∃ sqCtx cqCtx destroyed, t = { s.delRes proc (ty, i) with
      sqCtx := sqCtx, cqCtx := cqCtx, destroyed := destroyed })
    (hsq : ∀ k, s.has proc (trsHwSq, k) = false ∨ t.has proc (trsHwSq, k) = true →
      t.sqCtx k = s.sqCtx k)
    (hcq : ∀ k, s.has proc (trsHwCq, k) = false ∨ t.has proc (trsHwCq, k) = true →
      t.cqCtx k = s.cqCtx k)
    (hchans : ∀ c, t.destroyed.count c + t.chanNum proc c =
      s.destroyed.count c + s.chanNum proc c) :
    Freed proc (· < trsSwSq) s t (ty, i) := by
  obtain ⟨sqCtx, cqCtx, destroyed, rfl⟩ := hframe
  have hasT (r : TrsRes) : TsInst.has proc { s.delRes proc (ty, i) with
      sqCtx := sqCtx, cqCtx := cqCtx, destroyed := destroyed } r =
        (s.has proc r && decide (r ≠ (ty, i))) := TsInst.has_delRes r
  have idsT (r : TrsRes) (hr : s.has proc r = false ∨ r ≠ (ty, i)) :
      (s.delRes proc (ty, i)).res.ids r = s.res.ids r := TsInst.delRes_ids hr
  have ownedT (ty' : ℕ) (hne : ty' ≠ ty) : TsInst.owned proc { s.delRes proc (ty, i) with
      sqCtx := sqCtx, cqCtx := cqCtx, destroyed := destroyed } ty' = s.owned proc ty' :=
    owned_delRes_of_ne hne
  refine ⟨?_, ⟨TsInst.delRes_resInv hproc h.res, fun htrue => ?_, ?_⟩, by rw [hasT]; simp⟩
  · exact {
      maxId := by simp
      stars := by simp
      partFeatur := by simp
      releaseCheck := by simp
      mono := fun r hr => by
        rw [hasT, Bool.and_eq_true] at hr
        exact hr.1
      ids := fun r hr => by
        rcases hr with hr | hr | hr
        · refine idsT r (.inr ?_)
          rintro rfl
          rcases hty with rfl | rfl <;> simp [trsHwSq, trsHwCq, trsSwSq] at hr
        · exact idsT r (.inl hr)
        · rw [hasT, Bool.and_eq_true, decide_eq_true_iff] at hr
          exact idsT r (.inr hr.2)
      sqCtx := hsq
      cqCtx := hcq
      swSqCtx := by simp
      swCqCtx := by simp
      cbCq := by simp
      shmCtx := by simp
      procShm := by simp
      chans := hchans }
  · rw [TsInst.delRes_stars, hstars] at htrue
    cases htrue
  · have hne : trsCbCq ≠ ty ∧ trsCbSq ≠ ty := by rcases hty with rfl | rfl <;> decide
    rw [ownedT _ hne.1, ownedT _ hne.2, TsInst.delRes_cbCq]
    exact h.cb

/-- Without pairs, an SQ is freed with its channel. -/
theorem trsHwSqcqFreeSqChan_frees (hproc : proc.pid ≠ 0) (h : RecycleInv proc s)
    (hstars : s.stars = false) (hhas : s.has proc (trsHwSq, i) = true) :
    Freed proc (· < trsSwSq) s (trsHwSqcqFreeSqChan proc s i) (trsHwSq, i) := by
  have hasT (r : TrsRes) : (trsHwSqcqFreeSqChan proc s i).has proc r =
      (s.has proc r && decide (r ≠ (trsHwSq, i))) := TsInst.has_delRes r
  refine .of_delRes hproc h hstars (.inl rfl) ⟨_, _, _, rfl⟩ (fun k hk => ?_) (fun k _ => by simp)
    fun c => ?_
  · have hki : k ≠ i := by
      rintro rfl
      rw [hasT, hhas] at hk
      simp at hk
    simp [hki]
  · have num := chanNum_giveUpSq (t := trsHwSqcqFreeSqChan proc s i) (by simp) (by simp) hhas
      (fun k => by rw [hasT]; simp) (fun k hk => by simp [hk])
      (fun _ k => ⟨by rw [hasT]; simp [trsHwSq, trsHwCq], by simp⟩)
      (fun k => by rw [hasT]; simp [trsHwSq, trsSwSq]) (by simp) c
    have dest : (trsHwSqcqFreeSqChan proc s i).destroyed = (s.sqCtx i).chanId :: s.destroyed := by
      simp
    rw [dest, count_chanDestroy, num]
    omega

/-- Without pairs, a CQ is freed with its channel. -/
theorem trsHwSqcqFreeCqChan_frees (hproc : proc.pid ≠ 0) (h : RecycleInv proc s)
    (hstars : s.stars = false) (hhas : s.has proc (trsHwCq, i) = true) :
    Freed proc (· < trsSwSq) s (trsHwSqcqFreeCqChan proc s i) (trsHwCq, i) := by
  have hasT (r : TrsRes) : (trsHwSqcqFreeCqChan proc s i).has proc r =
      (s.has proc r && decide (r ≠ (trsHwCq, i))) := TsInst.has_delRes r
  refine .of_delRes hproc h hstars (.inr rfl) ⟨_, _, _, rfl⟩ (fun k _ => by simp) (fun k hk => ?_)
    fun c => ?_
  · have hki : k ≠ i := by
      rintro rfl
      rw [hasT, hhas] at hk
      simp at hk
    simp [hki]
  · have num := chanNum_giveUpCq (t := trsHwSqcqFreeCqChan proc s i) (by simp) (by simp) hstars
      hhas (fun k => by rw [hasT]; simp) (fun k hk => by simp [hk])
      (fun k => by rw [hasT]; simp [trsHwSq, trsHwCq]) (by simp)
      (fun k => by rw [hasT]; simp [trsHwCq, trsSwSq]) (by simp) c
    have dest : (trsHwSqcqFreeCqChan proc s i).destroyed = s.cqCtx i :: s.destroyed := by simp
    rw [dest, count_chanDestroy, num]
    omega

end QueueChannels

/-- The callback of the hardware SQs. -/
theorem trsHwSqcqRecycle_frees_sq (hproc : proc.pid ≠ 0) (h : RecycleInv proc s)
    (hhas : s.has proc (trsHwSq, i) = true) :
    Freed proc (· < trsSwSq) s (trsHwSqcqRecycle proc s trsHwSq i) (trsHwSq, i) := by
  rw [trsHwSqcqRecycle, if_pos rfl]
  split_ifs with hstars
  · exact trsHwSqcqFreePair_frees hproc h hstars hhas
  · exact trsHwSqcqFreeSqChan_frees hproc h (by simpa using hstars) hhas

/-- The callback of the hardware CQs, without pairs. -/
theorem trsHwSqcqRecycle_frees_cq (hproc : proc.pid ≠ 0) (h : RecycleInv proc s)
    (hstars : s.stars = false) (hhas : s.has proc (trsHwCq, i) = true) :
    Freed proc (· < trsSwSq) s (trsHwSqcqRecycle proc s trsHwCq i) (trsHwCq, i) := by
  rw [trsHwSqcqRecycle, if_neg (by decide), if_neg (by simp [hstars])]
  exact trsHwSqcqFreeCqChan_frees hproc h hstars hhas

end OpiaiKernel.Trs.Recycle
