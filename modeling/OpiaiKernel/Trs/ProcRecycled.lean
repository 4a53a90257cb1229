import OpiaiKernel.Trs.InstSteps

/-!
# When a process is recycled completely

A walk over a type frees all ids of the type, if its callback frees the id that it
is called for.  The callback of the software queues does not, and no walk after
the release is about the logic and callback queues.
-/

namespace OpiaiKernel.Trs.Recycle

variable {proc p : TrsProc} {s t u : TsInst} {res r : TrsRes} {ty i j : ℕ} {T : ℕ → Prop}
  {f : TsInst → ℕ → ℕ → TsInst}

/-- A walk frees the ids of its type. -/
theorem trsForEachProcResId_frees (hproc : proc.pid ≠ 0)
    (hf : ∀ t i, t.stars = s.stars → RecycleInv proc t → t.has proc (ty, i) = true →
      Freed proc T t (f t ty i) (ty, i))
    (h : RecycleInv proc s) :
    Recycling proc T s (trsForEachProcResId proc s ty f) ∧
      RecycleInv proc (trsForEachProcResId proc s ty f) ∧
      ∀ i, (trsForEachProcResId proc s ty f).has proc (ty, i) = false := by
  unfold trsForEachProcResId
  split_ifs with hnum
  · exact ⟨.refl s, h, TsInst.has_false_of_resNum hproc h.res hnum⟩
  let I : TsInst → Prop := fun t => Recycling proc T s t ∧ RecycleInv proc t
  have has_of {t : TsInst} {k : ℕ} (hk : k ∈ List.range (s.res.maxId ty)) (ht : I t)
      (hp : trsIsIdPidMatch (t.res.ids (ty, k)) proc = true) : t.has proc (ty, k) = true := by
    rw [← TsInst.match_eq_has (ht.1.maxId ▸ List.mem_range.mp hk)]
    exact hp
  have hstep : ∀ t k, k ∈ List.range (s.res.maxId ty) → I t →
      trsIsIdPidMatch (t.res.ids (ty, k)) proc = true → I (f t ty k) := by
    intro t k hk ht hp
    have freed := hf t k ht.1.stars ht.2 (has_of hk ht hp)
    exact ⟨ht.1.trans freed.rel, freed.inv⟩
  have start : I s := ⟨.refl s, h⟩
  have final : I (Walk.run _ (fun s => s.resNum proc ty = 0) _ _ s) := Walk.preserves hstep start
  refine ⟨final.1, final.2, fun i => ?_⟩
  have clear : ∀ k ∈ List.range (s.res.maxId ty), trsIsIdPidMatch
      ((Walk.run _ (fun s => s.resNum proc ty = 0) _ _ s).res.ids (ty, k)) proc = false :=
    Walk.clears hstep ?_ ?_ ?_ start
  · by_cases hi : i < s.res.maxId ty
    · rw [← TsInst.match_eq_has (by rw [final.1.maxId]; exact hi)]
      exact clear i (List.mem_range.mpr hi)
    · simp [TsInst.has, trsIsResPidMatch, final.1.maxId, hi]
  · intro t k hk ht hp
    have next := hstep t k hk ht hp
    rw [TsInst.match_eq_has (next.1.maxId ▸ List.mem_range.mp hk)]
    exact (hf t k ht.1.stars ht.2 (has_of hk ht hp)).gone
  · intro t k j hk hj ht hp hafter
    have next := hstep t k hk ht hp
    have hj' := (hf t k ht.1.stars ht.2 (has_of hk ht hp)).rel.mono _ (has_of hj next hafter)
    rw [TsInst.match_eq_has (ht.1.maxId ▸ List.mem_range.mp hj)]
    exact hj'
  · intro t ht hstop k hk
    rw [TsInst.match_eq_has (ht.1.maxId ▸ List.mem_range.mp hk)]
    exact TsInst.has_false_of_resNum hproc ht.2.res hstop k

/-- A walk whose callback does nothing. -/
theorem trsForEachProcResId_eq (hf : ∀ i, f s ty i = s) :
    trsForEachProcResId proc s ty f = s := by
  unfold trsForEachProcResId
  split_ifs
  · rfl
  · exact Walk.run_eq fun k _ _ => hf k

/-! ### The release -/

/-- The release frees the logic and callback queues, unless the instance works with
a part of the features. -/
theorem trsProcReleaseInst_frees (hproc : proc.pid ≠ 0) (h : RecycleInv proc s) :
    Recycling proc ReleaseType s (trsProcReleaseInst proc s) ∧
      RecycleInv proc (trsProcReleaseInst proc s) ∧
      (s.partFeatur = false → ∀ ty, ReleaseType ty → ∀ i,
        (trsProcReleaseInst proc s).has proc (ty, i) = false) := by
  unfold trsProcReleaseInst
  split_ifs with hpart
  · exact ⟨.refl s, h, fun hfalse => by rw [hpart] at hfalse; cases hfalse⟩
  obtain ⟨rel1, inv1, none1⟩ := trsForEachProcResId_frees hproc
    (fun t i _ ht hhas => trsLogicCqRecycle_frees trsLogicCq hproc ht hhas) h
  obtain ⟨rel2, inv2, none2⟩ := trsForEachProcResId_frees hproc
    (fun t i _ ht hhas => trsCbSqcqRecycle_frees hproc ht hhas) inv1
  have idle (t : TsInst) : trsForEachProcResId proc t trsCbSq (trsCbSqcqRecycle proc) = t :=
    trsForEachProcResId_eq fun _ => rfl
  dsimp only
  rw [idle]
  refine ⟨rel1.trans rel2, inv2, fun _ ty hty i => ?_⟩
  rcases hty with rfl | rfl | rfl
  · exact rel2.not_has (none1 i)
  · exact none2 i
  · -- an SQ that is left would have a CQ
    rw [← Bool.not_eq_true]
    intro hhas
    obtain ⟨j, hj, -⟩ := inv2.cb.surjOn hhas
    exact absurd hj (by simpa [TsInst.owned] using none2 j)

/-! ### The recycling -/

/-- The hardware queues are freed. -/
theorem hwQueues_freed (hproc : proc.pid ≠ 0) (h : RecycleInv proc s) :
    let t := trsForEachProcResId proc (trsForEachProcResId proc s trsHwSq (trsHwSqcqRecycle proc))
      trsHwCq (trsHwSqcqRecycle proc)
    Recycling proc (· < trsSwSq) s t ∧ RecycleInv proc t ∧
      ∀ i, t.has proc (trsHwSq, i) = false ∧ t.has proc (trsHwCq, i) = false := by
  dsimp only
  obtain ⟨rel1, inv1, none1⟩ := trsForEachProcResId_frees hproc
    (fun t i _ ht hhas => trsHwSqcqRecycle_frees_sq hproc ht hhas) h
  cases hstars : s.stars with
  | true =>
    have hstars1 := rel1.stars.trans hstars
    rw [trsForEachProcResId_eq (f := trsHwSqcqRecycle proc) fun i => by
      rw [trsHwSqcqRecycle, if_neg (by decide), if_pos hstars1]]
    refine ⟨rel1, inv1, fun i => ⟨none1 i, ?_⟩⟩
    rw [← Bool.not_eq_true]
    intro hhas
    obtain ⟨j, hj, -⟩ := (inv1.hw hstars1).surjOn hhas
    exact absurd hj (by simpa [TsInst.owned] using none1 j)
  | false =>
    obtain ⟨rel2, inv2, none2⟩ := trsForEachProcResId_frees hproc
      (fun t i ht inv hhas => trsHwSqcqRecycle_frees_cq hproc inv
        ((ht.trans rel1.stars).trans hstars) hhas) inv1
    exact ⟨rel1.trans rel2, inv2, fun i => ⟨rel2.not_has (none1 i), none2 i⟩⟩

/-- The plain ids are freed, type by type. -/
theorem plainIds_freed (hproc : proc.pid ≠ 0) (h : RecycleInv proc s) (tys : List ℕ)
    (htys : ∀ ty ∈ tys, ty < trsHwSq) :
    let t := tys.foldl
      (fun s ty => trsForEachProcResId proc s ty (trsResIdRecycle proc)) s
    Recycling proc (· < trsSwSq) s t ∧ RecycleInv proc t ∧
      ∀ ty ∈ tys, ∀ i, t.has proc (ty, i) = false := by
  induction tys generalizing s with
  | nil => exact ⟨.refl s, h, by simp⟩
  | cons ty tys ih =>
    obtain ⟨rel1, inv1, none1⟩ := trsForEachProcResId_frees hproc
      (fun t i _ ht _ => trsResIdRecycle_frees (i := i) hproc ht (htys ty (.head _))) h
    obtain ⟨rel2, inv2, none2⟩ := ih inv1 fun ty hty => htys ty (.tail _ hty)
    refine ⟨rel1.trans rel2, inv2, fun ty' hty' i => ?_⟩
    rcases List.mem_cons.mp hty' with rfl | hmem
    · exact rel2.not_has (none1 i)
    · exact none2 ty' hmem i

/-- The walks of the recycling; the software queues are left. -/
theorem walks_freed (hproc : proc.pid ≠ 0) (h : RecycleInv proc s) :
    Recycling proc (· < trsSwSq) s (trsProcResWalks proc s) ∧
      ∀ ty < trsSwSq, ∀ i, (trsProcResWalks proc s).has proc (ty, i) = false := by
  obtain ⟨rel1, inv1, none1⟩ := hwQueues_freed hproc h
  have sw (ty : ℕ) (hty : ty ≠ trsHwSq) (t : TsInst) :
      trsForEachProcResId proc t ty (trsSwSqcqRecycle proc) = t :=
    trsForEachProcResId_eq fun _ => if_neg hty
  obtain ⟨rel2, -, none2⟩ := plainIds_freed hproc inv1 (List.range trsHwSq) (by simp)
  unfold trsProcResWalks
  dsimp only at rel1 inv1 none1 rel2 none2 ⊢
  rw [sw trsSwSq (by decide), sw trsSwCq (by decide)]
  refine ⟨rel1.trans rel2, fun ty hty i => ?_⟩
  simp only [trsSwSq] at hty
  by_cases hplain : ty < trsHwSq
  · exact none2 ty (List.mem_range.mpr hplain) i
  · have hhw : ty = trsHwSq ∨ ty = trsHwCq := by
      simp only [trsHwSq, trsHwCq] at hplain ⊢
      omega
    rcases hhw with rfl | rfl
    · exact rel2.not_has (none1 i).1
    · exact rel2.not_has (none1 i).2

/-! ### The whole recycling -/

/-- How often the exit destroys a channel of the shared queues: the one of the
process, and the one of the instance with its last user. -/
def shmNum (proc : TrsProc) (s : TsInst) (c : ℤ) : ℕ :=
  if 0 ≤ s.procShm proc then
    (if Word.sub 32 s.shmCtx.ref 1 = 0 ∧ s.shmCtx.chanId = c then 1 else 0) +
      if s.procShm proc = c then 1 else 0
  else 0

/-- The process is gone from an instance, each channel was destroyed as often as the
process held it, and what belongs to others is as before. -/
structure Recycled (proc : TrsProc) (s t : TsInst) : Prop where
  none : ∀ ty < trsCoreMaxIdType, ∀ i, t.has proc (ty, i) = false
  shm : t.procShm proc < 0
  chans : ∀ c, t.destroyed.count c = s.destroyed.count c + s.chanNum proc c + shmNum proc s c
  ids : ∀ r, s.has proc r = false → t.res.ids r = s.res.ids r
  sqCtx : ∀ i, s.has proc (trsHwSq, i) = false → t.sqCtx i = s.sqCtx i
  cqCtx : ∀ i, s.has proc (trsHwCq, i) = false → t.cqCtx i = s.cqCtx i
  swSqCtx : ∀ i, s.has proc (trsSwSq, i) = false → t.swSqCtx i = s.swSqCtx i
  swCqCtx : ∀ i, s.has proc (trsSwCq, i) = false → t.swCqCtx i = s.swCqCtx i
  cbCq : t.cbCq = s.cbCq
  procShm : ∀ p ≠ proc, t.procShm p = s.procShm p

/-- The process has no software queues, and with a part of the features no logic and
callback queues. -/
structure Recyclable (proc : TrsProc) (s : TsInst) : Prop where
  swSq : ∀ i, s.has proc (trsSwSq, i) = false
  swCq : ∀ i, s.has proc (trsSwCq, i) = false
  part : s.partFeatur = true → ∀ ty, ReleaseType ty → ∀ i, s.has proc (ty, i) = false

/-- The shared queues are freed; all else is as before. -/
structure ShmFreed (proc : TrsProc) (s t : TsInst) : Prop where
  res : t.res = s.res
  stars : t.stars = s.stars
  sqCtx : t.sqCtx = s.sqCtx
  cqCtx : t.cqCtx = s.cqCtx
  swSqCtx : t.swSqCtx = s.swSqCtx
  swCqCtx : t.swCqCtx = s.swCqCtx
  cbCq : t.cbCq = s.cbCq
  shm : t.procShm proc < 0
  procShm : ∀ p ≠ proc, t.procShm p = s.procShm p
  chans : ∀ c, t.destroyed.count c = s.destroyed.count c + shmNum proc s c

theorem shmFreePhyCq_freed (h : 0 ≤ s.procShm proc) (hlast : Prop) [Decidable hlast]
    (hsq : ∀ c, t.destroyed.count c = s.destroyed.count c +
      if hlast ∧ s.shmCtx.chanId = c then 1 else 0)
    (hnum : ∀ c, shmNum proc s c = (if hlast ∧ s.shmCtx.chanId = c then 1 else 0) +
      if s.procShm proc = c then 1 else 0)
    (hres : t.res = s.res) (hstars : t.stars = s.stars) (hsqCtx : t.sqCtx = s.sqCtx)
    (hcqCtx : t.cqCtx = s.cqCtx) (hswSqCtx : t.swSqCtx = s.swSqCtx)
    (hswCqCtx : t.swCqCtx = s.swCqCtx) (hcb : t.cbCq = s.cbCq) (hshm : t.procShm = s.procShm) :
    ShmFreed proc s (trsShmFreePhyCq proc t) := by
  rw [trsShmFreePhyCq, if_pos (hshm ▸ h)]
  refine ⟨hres, hstars, hsqCtx, hcqCtx, hswSqCtx, hswCqCtx, hcb, by simp, fun p hp => ?_,
    fun c => ?_⟩
  · simp [hp, hshm]
  · simp only [TsInst.chanDestroy]
    rw [count_chanDestroy, hsq, hnum, hshm]
    omega

theorem shm_freed (s : TsInst) :
    ShmFreed proc s (if 0 ≤ s.procShm proc then trsShmSqcqRecycle proc s else s) := by
  split_ifs with hshm
  · have hnum (c : ℤ) : shmNum proc s c =
        (if Word.sub 32 s.shmCtx.ref 1 = 0 ∧ s.shmCtx.chanId = c then 1 else 0) +
          if s.procShm proc = c then 1 else 0 := if_pos hshm
    rw [trsShmSqcqRecycle, trsShmFreePhySq]
    dsimp only
    split_ifs with href
    · refine shmFreePhyCq_freed hshm _ (fun c => ?_) hnum rfl rfl rfl rfl rfl rfl rfl rfl
      simp only [TsInst.chanDestroy, href, true_and]
      exact count_chanDestroy ..
    · refine shmFreePhyCq_freed hshm _ (fun c => ?_) hnum rfl rfl rfl rfl rfl rfl rfl rfl
      simp [href]
  · exact ⟨rfl, rfl, rfl, rfl, rfl, rfl, rfl, by simpa using hshm, fun _ _ => rfl,
      fun c => by simp [shmNum, hshm]⟩

namespace ShmFreed

theorem has (h : ShmFreed proc s t) (r : TrsRes) : t.has proc r = s.has proc r := by
  rw [TsInst.has, h.res]
  rfl

theorem owned (h : ShmFreed proc s t) (ty : ℕ) : t.owned proc ty = s.owned proc ty := by
  ext i
  change t.has proc (ty, i) = true ↔ s.has proc (ty, i) = true
  rw [h.has]

theorem inv (h : ShmFreed proc s t) (hs : RecycleInv proc s) : RecycleInv proc t where
  res := h.res ▸ hs.res
  hw := by
    rw [h.stars, h.sqCtx, h.owned, h.owned]
    exact hs.hw
  cb := by
    rw [h.cbCq, h.owned, h.owned]
    exact hs.cb

theorem chanNum (h : ShmFreed proc s t) (c : ℤ) : t.chanNum proc c = s.chanNum proc c := by
  simp only [TsInst.chanNum, h.has, h.res, h.stars, h.sqCtx, h.cqCtx, h.swSqCtx]

end ShmFreed

/-- A process without a leak has nothing. -/
theorem none_of_no_leak (hproc : proc.pid ≠ 0) (h : ResInv [] s.res)
    (hleak : trsProcIsResLeak proc s = false) (hty : ty < trsCoreMaxIdType) (i : ℕ) :
    s.has proc (ty, i) = false := by
  simp only [trsProcIsResLeak, Bool.or_eq_false_iff, List.any_eq_false, List.mem_range,
    decide_eq_true_eq] at hleak
  have hnum := hleak.2 ty hty
  have hcount := h.nums.currentIdNum proc ty hproc
  refine TsInst.has_false_of_resNum hproc h ?_ i
  simp only [TsInst.resNum] at hnum ⊢
  omega

theorem chanNum_eq_zero (hnone : ∀ ty, ty = trsHwSq ∨ ty = trsHwCq ∨ ty = trsSwSq →
    ∀ i, s.has proc (ty, i) = false) (c : ℤ) : s.chanNum proc c = 0 := by
  simp [TsInst.chanNum, hnone trsHwSq (.inl rfl), hnone trsHwCq (.inr (.inl rfl)),
    hnone trsSwSq (.inr (.inr rfl))]

/-- What the recycling of an instance does, whatever types the process owns. -/
structure Walked (proc : TrsProc) (s t : TsInst) : Prop where
  none : ∀ ty < trsSwSq, ∀ i, t.has proc (ty, i) = false
  left : ∀ ty, trsSwSq ≤ ty → ∀ i, t.has proc (ty, i) = s.has proc (ty, i)
  shm : t.procShm proc < 0
  chans : ∀ c, t.destroyed.count c + t.chanNum proc c =
    s.destroyed.count c + s.chanNum proc c + shmNum proc s c
  ids : ∀ r, s.has proc r = false → t.res.ids r = s.res.ids r
  sqCtx : ∀ i, s.has proc (trsHwSq, i) = false → t.sqCtx i = s.sqCtx i
  cqCtx : ∀ i, s.has proc (trsHwCq, i) = false → t.cqCtx i = s.cqCtx i
  swSqCtx : t.swSqCtx = s.swSqCtx
  swCqCtx : t.swCqCtx = s.swCqCtx
  cbCq : t.cbCq = s.cbCq
  procShm : ∀ p ≠ proc, t.procShm p = s.procShm p

theorem trsProcRecycleInst_walked (hproc : proc.pid ≠ 0) (h : RecycleInv proc s)
    (hok : (trsProcRecycleInst proc s).2 = true) :
    Walked proc s (trsProcRecycleInst proc s).1 := by
  unfold trsProcRecycleInst at hok ⊢
  split_ifs at hok ⊢ with hleak hcheck
  · have freed : ShmFreed proc s _ := shm_freed s
    obtain ⟨rel, none⟩ := walks_freed hproc (freed.inv h)
    refine ⟨none, fun ty hty i => ?_, ?_, fun c => ?_, fun r hr => ?_, fun i hi => ?_,
      fun i hi => ?_, ?_, ?_, ?_, fun p hp => ?_⟩
    · exact (rel.has_eq (by simpa using hty)).trans (freed.has _)
    · exact rel.procShm ▸ freed.shm
    · have walk := rel.chans c
      rw [freed.chanNum, freed.chans] at walk
      change (trsProcResWalks proc _).destroyed.count c + (trsProcResWalks proc _).chanNum proc c = _
      omega
    · exact (rel.ids r (.inr (.inl ((freed.has r).trans hr)))).trans (by rw [freed.res])
    · exact (rel.sqCtx i (.inl ((freed.has _).trans hi))).trans (by rw [freed.sqCtx])
    · exact (rel.cqCtx i (.inl ((freed.has _).trans hi))).trans (by rw [freed.cqCtx])
    · exact rel.swSqCtx.trans freed.swSqCtx
    · exact rel.swCqCtx.trans freed.swCqCtx
    · exact rel.cbCq.trans freed.cbCq
    · exact (congrFun rel.procShm p).trans (freed.procShm p hp)
  · have hfalse : trsProcIsResLeak proc s = false := by simpa using hleak
    have hshm : s.procShm proc < 0 := by
      simp only [trsProcIsResLeak, Bool.or_eq_false_iff, decide_eq_false_iff_not, not_le] at hfalse
      exact hfalse.1
    refine ⟨fun ty hty => none_of_no_leak hproc h.res hfalse (hty.trans (by decide)),
      fun _ _ _ => rfl, hshm, fun c => ?_, fun _ _ => rfl, fun _ _ => rfl, fun _ _ => rfl, rfl, rfl,
      rfl, fun _ _ => rfl⟩
    rw [shmNum, if_neg (by omega)]
    rfl

/-- An instance whose recycling succeeded is free of the process exactly if the process
had no queues there that are left out. -/
theorem recycled_iff (hproc : proc.pid ≠ 0) (h : RecycleInv proc s)
    (hok : (trsProcRecycleInst proc (trsProcReleaseInst proc s)).2 = true) :
    Recycled proc s (trsProcRecycleInst proc (trsProcReleaseInst proc s)).1 ↔
      Recyclable proc s := by
  obtain ⟨rel, inv, none⟩ := trsProcReleaseInst_frees hproc h
  have walked := trsProcRecycleInst_walked hproc inv hok
  have swHas (ty : ℕ) (hty : ty = trsSwSq ∨ ty = trsSwCq) (i : ℕ) :
      (trsProcRecycleInst proc (trsProcReleaseInst proc s)).1.has proc (ty, i) =
        s.has proc (ty, i) := by
    have hle : trsSwSq ≤ ty := by rcases hty with rfl | rfl <;> decide
    have hnot : ¬ ReleaseType ty := by
      rcases hty with rfl | rfl <;> simp [ReleaseType, trsSwSq, trsSwCq, trsLogicCq, trsCbCq, trsCbSq]
    exact (walked.left ty hle i).trans (rel.has_eq hnot)
  constructor
  · intro recycled
    refine ⟨fun i => ?_, fun i => ?_, fun hpart ty hty i => ?_⟩
    · rw [← swHas trsSwSq (.inl rfl) i]
      exact recycled.none _ (by decide) i
    · rw [← swHas trsSwCq (.inr rfl) i]
      exact recycled.none _ (by decide) i
    · have hle : trsSwSq ≤ ty ∧ ty < trsCoreMaxIdType := by
        rcases hty with rfl | rfl | rfl <;> decide
      have same : trsProcReleaseInst proc s = s := if_pos hpart
      have left := walked.left ty hle.1 i
      rw [recycled.none ty hle.2 i, same] at left
      exact left.symm
  · intro recyclable
    have gone (ty : ℕ) (hty : ty < trsCoreMaxIdType) (i : ℕ) :
        (trsProcRecycleInst proc (trsProcReleaseInst proc s)).1.has proc (ty, i) = false := by
      by_cases hlow : ty < trsSwSq
      · exact walked.none ty hlow i
      · by_cases hsw : ty = trsSwSq ∨ ty = trsSwCq
        · rw [swHas ty hsw i]
          rcases hsw with rfl | rfl
          · exact recyclable.swSq i
          · exact recyclable.swCq i
        · have hrel : ReleaseType ty := by
            simp only [ReleaseType, trsCoreMaxIdType, trsSwSq, trsSwCq, trsLogicCq, trsCbCq,
              trsCbSq] at hty hlow hsw ⊢
            omega
          rw [walked.left ty (not_lt.mp hlow) i]
          cases hpart : s.partFeatur with
          | true => exact rel.not_has (recyclable.part hpart ty hrel i)
          | false => exact none hpart ty hrel i
    have num (c : ℤ) : TsInst.chanNum proc
        (trsProcRecycleInst proc (trsProcReleaseInst proc s)).1 c = 0 :=
      chanNum_eq_zero (fun ty hty => gone ty (by rcases hty with rfl | rfl | rfl <;> decide)) c
    have shmSame (c : ℤ) : shmNum proc (trsProcReleaseInst proc s) c = shmNum proc s c := by
      rw [shmNum, shmNum, rel.procShm, rel.shmCtx]
    refine ⟨gone, walked.shm, fun c => ?_, fun r hr => ?_, fun i hi => ?_, fun i hi => ?_,
      fun i _ => ?_, fun i _ => ?_, walked.cbCq.trans rel.cbCq, fun p hp => ?_⟩
    · have walk := walked.chans c
      rw [num, rel.chans, shmSame] at walk
      exact walk
    · exact (walked.ids r (rel.not_has hr)).trans (rel.ids r (.inr (.inl hr)))
    · exact (walked.sqCtx i (rel.not_has hi)).trans (rel.sqCtx i (.inl hi))
    · exact (walked.cqCtx i (rel.not_has hi)).trans (rel.cqCtx i (.inl hi))
    · exact congrFun (walked.swSqCtx.trans rel.swSqCtx) i
    · exact congrFun (walked.swCqCtx.trans rel.swCqCtx) i
    · exact (walked.procShm p hp).trans (congrFun rel.procShm p)

/-- After a release and a recycling that succeeded, the process is gone from all the
instances exactly if it had nowhere a queue that is left out. -/
theorem proc_recycled_iff (hproc : proc.pid ≠ 0) {insts : List TsInst}
    (h : ∀ s ∈ insts, instMachine.Reach s)
    (hok : (trsProcRecycle proc (trsProcRelease proc insts)).2 = true) :
    List.Forall₂ (Recycled proc) insts (trsProcRecycle proc (trsProcRelease proc insts)).1 ↔
      ∀ s ∈ insts, Recyclable proc s := by
  have ok : ∀ s ∈ insts, (trsProcRecycleInst proc (trsProcReleaseInst proc s)).2 = true := by
    simpa [trsProcRecycle, trsProcRelease] using hok
  rw [trsProcRecycle, trsProcRelease, List.map_map, List.forall₂_map_right_iff, List.forall₂_same]
  refine forall₂_congr fun s hs => ?_
  exact recycled_iff hproc ((InstInv.of_reach (h s hs)).recycleInv hproc) (ok s hs)

/-! ### A process with queues -/

def sampleProc : TrsProc := ⟨1, 0⟩

/-- An instance in the pair mode, with four ids of each type, after some operations. -/
def sampleInst (ops : List InstOp) : TsInst := instMachine.final (instInit (fun _ => 4) true) ops

theorem sampleInst_reach {ops : List InstOp}
    (hrun : (instMachine.run (instInit (fun _ => 4) true) ops).isSome) :
    instMachine.Reach (sampleInst ops) := Machine.Reach.final (.start ⟨_, _, rfl⟩) hrun

/-- Two hardware pairs, a callback pair, a logic CQ and an event, to which another process
refers. -/
def sampleQueues : List InstOp :=
  [.hwAllocPair sampleProc 0 3 10, .hwAllocPair sampleProc 1 2 11, .cbAlloc sampleProc 1 1,
    .res (.alloc sampleProc (trsLogicCq, 0) true), .res (.addRes sampleProc (trsLogicCq, 0)),
    .res (.alloc sampleProc (1, 2) true), .res (.addRes sampleProc (1, 2)),
    .res (.get sampleProc (1, 2))]

/-- A logic CQ with a pair of software queues. -/
def sampleSwQueues : List InstOp :=
  [.res (.alloc sampleProc (trsLogicCq, 0) true), .res (.addRes sampleProc (trsLogicCq, 0)),
    .swAlloc sampleProc 1 1 21]

/-- The pairs, the logic CQ and the event are recycled, and each channel is destroyed
once. -/
theorem sample_recycled :
    List.Forall₂ (Recycled sampleProc) [sampleInst sampleQueues]
      (trsProcRecycle sampleProc (trsProcRelease sampleProc [sampleInst sampleQueues])).1 := by
  have reach : instMachine.Reach (sampleInst sampleQueues) := sampleInst_reach (by decide +kernel)
  have max (ty : ℕ) : (sampleInst sampleQueues).res.maxId ty = 4 := rfl
  have none (ty : ℕ) (h : ∀ i < 4, (sampleInst sampleQueues).has sampleProc (ty, i) = false)
      (i : ℕ) : (sampleInst sampleQueues).has sampleProc (ty, i) = false := by
    rw [← Bool.not_eq_true]
    intro hhas
    rw [h i (max ty ▸ TsInst.has_lt hhas)] at hhas
    cases hhas
  have hsw : Recyclable sampleProc (sampleInst sampleQueues) :=
    ⟨none _ (by decide +kernel), none _ (by decide +kernel), fun hpart => by cases hpart⟩
  exact (proc_recycled_iff (by decide) (by simpa using reach) (by decide +kernel)).mpr
    (by simpa using hsw)

/-- The recycling reports success and leaves the software queues. -/
theorem sample_left :
    instMachine.Reach (sampleInst sampleSwQueues) ∧
      (trsProcRecycle sampleProc
        (trsProcRelease sampleProc [sampleInst sampleSwQueues])).2 = true ∧
      ¬ List.Forall₂ (Recycled sampleProc) [sampleInst sampleSwQueues]
        (trsProcRecycle sampleProc (trsProcRelease sampleProc [sampleInst sampleSwQueues])).1 := by
  refine ⟨sampleInst_reach (by decide +kernel), by decide +kernel, fun h => ?_⟩
  change List.Forall₂ _ [_] [_] at h
  rw [List.forall₂_cons] at h
  exact absurd (h.1.none trsSwSq (by decide) 1) (by decide +kernel)

end OpiaiKernel.Trs.Recycle
