import OpiaiKernel.Lib.Machine
import OpiaiKernel.Trs.ProcRecycleSteps

/-!
# The operations on an instance

The processes allocate and free ids and queues, refer to ids of others, and
exit, in any order.  In the pair mode an SQ has a CQ of the same process and
shares its channel with it, and no two SQs have one channel; a callback CQ has a
callback SQ of the same process.

An allocation that fails is undone and is not a step.  The allocator hands out
ids that it has, and a new channel is not one that a queue has.  The checks for
other resources (the stream of a hardware SQ, the logic CQ of a software SQ) are
left out, and the shared queues and the answers of the device change in any way,
so that the runs of the code are among these.
-/

namespace OpiaiKernel.Trs.Recycle

variable (proc : TrsProc)

/-- `trs_proc_add_res` of an id that the allocator hands out. -/
def TsInst.addRes (s : TsInst) (res : TrsRes) : TsInst :=
  { s with res := trsProcAddRes { s.res with out := res :: s.res.out } proc res }

/-- The allocator has the id, and it is in the range of its type. -/
def TsInst.canAdd (s : TsInst) (res : TrsRes) : Bool :=
  res ∉ s.res.out && res.2 < s.res.maxId res.1

/-- No SQ has the channel. -/
def TsInst.newChan (s : TsInst) (chanId : ℤ) : Bool :=
  (List.range (s.res.maxId trsHwSq)).all fun i =>
    (s.res.ids (trsHwSq, i)).pid = 0 || (s.sqCtx i).chanId ≠ chanId

def trsHwSqcqAllocPair (s : TsInst) (sqid cqid : ℕ) (chanId : ℤ) : TsInst :=
  let s := (s.addRes proc (trsHwSq, sqid)).addRes proc (trsHwCq, cqid)
  { s with
    sqCtx := Function.update s.sqCtx sqid { cqid := cqid, chanId := chanId }
    cqCtx := Function.update s.cqCtx cqid chanId }

def trsHwSqcqAllocSqChan (s : TsInst) (sqid cqid : ℕ) (chanId : ℤ) : TsInst :=
  let s := s.addRes proc (trsHwSq, sqid)
  { s with sqCtx := Function.update s.sqCtx sqid { cqid := cqid, chanId := chanId } }

def trsHwSqcqAllocCqChan (s : TsInst) (cqid : ℕ) (chanId : ℤ) : TsInst :=
  let s := s.addRes proc (trsHwCq, cqid)
  { s with cqCtx := Function.update s.cqCtx cqid chanId }

def trsSwSqcqAlloc (s : TsInst) (sqid cqid : ℕ) (chanId : ℤ) : TsInst :=
  let s := (s.addRes proc (trsSwSq, sqid)).addRes proc (trsSwCq, cqid)
  { s with
    swSqCtx := Function.update s.swSqCtx sqid { cqid := cqid, chanId := chanId }
    swCqCtx := Function.update s.swCqCtx cqid chanId }

def trsCbSqcqInit (s : TsInst) (sqid cqid : ℕ) : TsInst :=
  let s := (s.addRes proc (trsCbSq, sqid)).addRes proc (trsCbCq, cqid)
  { s with cbCq := Function.update s.cbCq cqid sqid }

def pairModeFreeParaCheck (s : TsInst) (sqid cqid : ℕ) : Bool :=
  s.has proc (trsHwSq, sqid) && s.has proc (trsHwCq, cqid) &&
    (s.sqCtx sqid).chanId = s.cqCtx cqid

def trsSwSqcqFreeCheck (s : TsInst) (sqid cqid : ℕ) : Bool :=
  s.has proc (trsSwSq, sqid) && s.has proc (trsSwCq, cqid)

inductive InstOp
  | res (op : ResOp)
  | hwAllocPair (proc : TrsProc) (sqid cqid : ℕ) (chanId : ℤ)
  | hwFreePair (proc : TrsProc) (sqid cqid : ℕ)
  | hwAllocSqChan (proc : TrsProc) (sqid cqid : ℕ) (chanId : ℤ)
  | hwFreeSqChan (proc : TrsProc) (sqid : ℕ)
  | hwAllocCqChan (proc : TrsProc) (cqid : ℕ) (chanId : ℤ)
  | hwFreeCqChan (proc : TrsProc) (cqid : ℕ)
  | swAlloc (proc : TrsProc) (sqid cqid : ℕ) (chanId : ℤ)
  | swFree (proc : TrsProc) (sqid cqid : ℕ)
  | cbAlloc (proc : TrsProc) (sqid cqid : ℕ)
  | cbFree (proc : TrsProc) (sqid cqid : ℕ)
  | shm (shmCtx : TrsShmCtx) (procShm : TrsProc → ℤ) (destroyed : List ℤ)
  | mode (partFeatur releaseCheck : Bool)
  | release (proc : TrsProc)
  | recycle (proc : TrsProc)

/-- The queues are not allocated and freed as ids. -/
def isQueueType (ty : ℕ) : Bool := trsHwSq ≤ ty && ty ≠ trsLogicCq

def isIdOp : ResOp → Bool
  | .alloc _ res _ => !isQueueType res.1
  | .addRes _ res => !isQueueType res.1
  | .free _ res => !isQueueType res.1
  | _ => true

def instStep (s : TsInst) : InstOp → Option TsInst
  | .res op => if isIdOp op then (resStep s.res op).map fun t => { s with res := t } else none
  | .hwAllocPair proc sqid cqid chanId =>
      if proc.pid ≠ 0 ∧ s.stars = true ∧ s.canAdd (trsHwSq, sqid) ∧ s.canAdd (trsHwCq, cqid) ∧
          s.newChan chanId then
        some (trsHwSqcqAllocPair proc s sqid cqid chanId)
      else none
  | .hwFreePair proc sqid cqid =>
      if proc.pid ≠ 0 ∧ s.stars = true ∧ pairModeFreeParaCheck proc s sqid cqid then
        some (trsHwSqcqFreePair proc s sqid cqid)
      else none
  | .hwAllocSqChan proc sqid cqid chanId =>
      if proc.pid ≠ 0 ∧ s.stars = false ∧ s.canAdd (trsHwSq, sqid) then
        some (trsHwSqcqAllocSqChan proc s sqid cqid chanId)
      else none
  | .hwFreeSqChan proc sqid =>
      if proc.pid ≠ 0 ∧ s.stars = false ∧ s.has proc (trsHwSq, sqid) then
        some (trsHwSqcqFreeSqChan proc s sqid)
      else none
  | .hwAllocCqChan proc cqid chanId =>
      if proc.pid ≠ 0 ∧ s.stars = false ∧ s.canAdd (trsHwCq, cqid) then
        some (trsHwSqcqAllocCqChan proc s cqid chanId)
      else none
  | .hwFreeCqChan proc cqid =>
      if proc.pid ≠ 0 ∧ s.stars = false ∧ s.has proc (trsHwCq, cqid) then
        some (trsHwSqcqFreeCqChan proc s cqid)
      else none
  | .swAlloc proc sqid cqid chanId =>
      if proc.pid ≠ 0 ∧ s.canAdd (trsSwSq, sqid) ∧ s.canAdd (trsSwCq, cqid) then
        some (trsSwSqcqAlloc proc s sqid cqid chanId)
      else none
  | .swFree proc sqid cqid =>
      if proc.pid ≠ 0 ∧ trsSwSqcqFreeCheck proc s sqid cqid then
        some (trsSwSqcqFree proc s sqid cqid)
      else none
  | .cbAlloc proc sqid cqid =>
      if proc.pid ≠ 0 ∧ s.canAdd (trsCbSq, sqid) ∧ s.canAdd (trsCbCq, cqid) then
        some (trsCbSqcqInit proc s sqid cqid)
      else none
  | .cbFree proc sqid cqid => if proc.pid ≠ 0 then some (trsCbSqcqFree proc s sqid cqid) else none
  | .shm shmCtx procShm destroyed =>
      some { s with shmCtx := shmCtx, procShm := procShm, destroyed := destroyed }
  | .mode partFeatur releaseCheck =>
      some { s with partFeatur := partFeatur, releaseCheck := releaseCheck }
  | .release proc => if proc.pid ≠ 0 then some (trsProcReleaseInst proc s) else none
  | .recycle proc => if proc.pid ≠ 0 then some (trsProcRecycleInst proc s).1 else none

def instInit (maxId : ℕ → ℕ) (stars : Bool) : TsInst where
  res := resInit maxId
  stars := stars
  partFeatur := false
  sqCtx := fun _ => { cqid := 0, chanId := -1 }
  cqCtx := fun _ => -1
  swSqCtx := fun _ => { cqid := 0, chanId := -1 }
  swCqCtx := fun _ => -1
  cbCq := fun _ => 0
  shmCtx := { ref := 0, chanId := -1, sqid := 0 }
  procShm := fun _ => -1
  destroyed := []
  releaseCheck := true

def instMachine : Machine TsInst InstOp where
  init s := ∃ maxId stars, s = instInit maxId stars
  step := instStep

/-! ### What each process owns after an operation -/

variable {proc} {p q : TrsProc} {s t : TsInst} {res r : TrsRes} {ty ty' i j k : ℕ}
  {f g : ℕ → ℕ} {chanId : ℤ}

/-- An id has one owner. -/
theorem TsInst.has_unique (hp : s.has p r = true) (hq : s.has q r = true) : p = q := by
  simp only [has, trsIsResPidMatch, trsIsIdPidMatch, Bool.and_eq_true, decide_eq_true_eq] at hp hq
  cases p
  cases q
  simp_all

theorem has_delRes_other (hne : p ≠ proc) : (s.delRes proc res).has p r = s.has p r := by
  by_cases hhas : s.has proc res = true
  · rcases eq_or_ne r res with rfl | hr
    · have before : s.has p r = false := by
        rw [← Bool.not_eq_true]
        exact fun hp => hne (TsInst.has_unique hp hhas)
      rw [before]
      simp [TsInst.has, trsIsResPidMatch, trsIsIdPidMatch, TsInst.status_delRes hhas]
    · simp [TsInst.has, trsIsResPidMatch, TsInst.delRes_ids (.inr hr)]
  · rw [TsInst.delRes, if_neg hhas]

theorem owned_delRes_other (hne : p ≠ proc) (ty : ℕ) :
    (s.delRes proc res).owned p ty = s.owned p ty := by
  ext i
  change _ = true ↔ _ = true
  rw [has_delRes_other hne]

/-- An id of a type is freed. -/
theorem owned_delRes : (s.delRes proc (ty, j)).owned p ty =
    if p = proc then s.owned p ty \ {j} else s.owned p ty := by
  split_ifs with hp
  · subst hp
    exact owned_delRes_self
  · exact owned_delRes_other hp ty

theorem owned_delRes_type (hty : ty ≠ ty') : (s.delRes proc (ty', j)).owned p ty = s.owned p ty := by
  rcases eq_or_ne p proc with rfl | hp
  · exact owned_delRes_of_ne hty
  · exact owned_delRes_other hp ty

theorem TsInst.addRes_eq (hlt : res.2 < s.res.maxId res.1) (hpid : (s.res.ids res).pid = 0) :
    (s.addRes proc res).res.ids = Function.update s.res.ids res
      { status := .normal, taskId := proc.taskId, pid := proc.pid, ref := 1 } := by
  unfold addRes trsProcAddRes
  rw [if_neg]
  · rfl
  · exact not_or.mpr ⟨by simpa using hlt, by simpa using hpid⟩

theorem TsInst.pid_of_canAdd (h : ResInv [] s.res) (hadd : s.canAdd res = true) :
    res ∉ s.res.out ∧ res.2 < s.res.maxId res.1 ∧ (s.res.ids res).pid = 0 := by
  simp only [canAdd, Bool.and_eq_true, decide_eq_true_eq] at hadd
  have hout := (h.refs.each res).out
  rw [List.count_eq_zero.mpr hadd.1] at hout
  have hbit := bit_nonneg (s.res.ids res).owned
  have hfree : (s.res.ids res).owned = false := bit_eq_zero.mp (by omega)
  exact ⟨hadd.1, hadd.2, by simpa [TrsResIds.owned] using hfree⟩

@[simp] theorem TsInst.addRes_maxId : (s.addRes proc res).res.maxId = s.res.maxId := by
  unfold addRes trsProcAddRes
  split_ifs <;> rfl

theorem TsInst.addRes_resInv (hproc : proc.pid ≠ 0) (h : ResInv [] s.res)
    (hadd : s.canAdd res = true) : ResInv [] (s.addRes proc res).res := by
  have added := (h.alloc hproc (pid_of_canAdd h hadd).1).addRes (List.mem_cons_self)
  simpa [addRes] using added

/-- The id of a type that the allocator has is nobody's. -/
theorem not_owned_of_canAdd (h : ResInv [] s.res) (hadd : s.canAdd (ty, j) = true)
    (hp : p.pid ≠ 0) : j ∉ s.owned p ty := by
  intro hmem
  have hhas : s.has p (ty, j) = true := hmem
  obtain ⟨-, hpid, -, -⟩ := trsIsResPidMatch_spec hhas hp
  exact hpid (TsInst.pid_of_canAdd h hadd).2.2

/-- An id of a type is added. -/
theorem owned_addRes (h : ResInv [] s.res) (hadd : s.canAdd (ty, j) = true) (hp : p.pid ≠ 0) :
    (s.addRes proc (ty, j)).owned p ty =
      if p = proc then insert j (s.owned p ty) else s.owned p ty := by
  obtain ⟨-, hlt, hpid⟩ := TsInst.pid_of_canAdd h hadd
  have not := not_owned_of_canAdd h hadd hp
  ext i
  have hids : (s.addRes proc (ty, j)).has p (ty, i) =
      if i = j then decide (p = proc) else s.has p (ty, i) := by
    rw [TsInst.has, trsIsResPidMatch, TsInst.addRes_eq hlt hpid, TsInst.addRes_maxId]
    split_ifs with hi
    · subst hi
      rw [Function.update_self, decide_eq_true (show (ty, i).2 < s.res.maxId (ty, i).1 from hlt)]
      cases p
      cases proc
      simp [trsIsIdPidMatch, eq_comm]
    · rw [Function.update_of_ne (by simpa using hi)]
      rfl
  change (s.addRes proc (ty, j)).has p (ty, i) = true ↔ _
  rw [hids]
  split_ifs with hi hpp hpp
  · simp [hi, hpp]
  · subst hi
    simp [hpp, not]
  · simp [hi, TsInst.owned]
  · rfl

theorem owned_addRes_type (h : ResInv [] s.res) (hadd : s.canAdd (ty', j) = true)
    (hty : ty ≠ ty') : (s.addRes proc (ty', j)).owned p ty = s.owned p ty := by
  obtain ⟨-, hlt, hpid⟩ := TsInst.pid_of_canAdd h hadd
  ext i
  change (s.addRes proc (ty', j)).has p (ty, i) = true ↔ s.has p (ty, i) = true
  rw [TsInst.has, trsIsResPidMatch, TsInst.addRes_eq hlt hpid, TsInst.addRes_maxId,
    Function.update_of_ne (by simp [hty])]
  rfl

/-- The id of another type is still there after an allocation. -/
theorem canAdd_addRes (h : ResInv [] s.res) (hadd : s.canAdd (ty', j) = true)
    (hadd' : s.canAdd (ty, i) = true) (hty : ty ≠ ty') :
    (s.addRes proc (ty', j)).canAdd (ty, i) = true := by
  obtain ⟨-, hlt, hpid⟩ := TsInst.pid_of_canAdd h hadd
  have hout : (s.addRes proc (ty', j)).res.out = (ty', j) :: s.res.out := by
    unfold TsInst.addRes trsProcAddRes
    rw [if_neg]
    · rfl
    · exact not_or.mpr ⟨by simpa using hlt, by simpa using hpid⟩
  simp only [TsInst.canAdd, hout, TsInst.addRes_maxId, List.mem_cons, Prod.mk.injEq, hty,
    false_and, false_or]
  exact hadd'


theorem TsInst.owned_congr (h : t.res = s.res) (p : TrsProc) (ty : ℕ) :
    t.owned p ty = s.owned p ty := by
  simp only [owned, has, h]

theorem TsInst.delRes_res_congr (h : t.res = s.res) :
    (t.delRes proc res).res = (s.delRes proc res).res := by
  unfold delRes has
  rw [h]
  split
  · rfl
  · exact h

/-! ### Queues in pairs -/

/-- Each queue of the one type has one of the other type, of the same process. -/
def Paired (s : TsInst) (f : ℕ → ℕ) (ty ty' : ℕ) : Prop :=
  ∀ p : TrsProc, p.pid ≠ 0 → Set.BijOn f (s.owned p ty) (s.owned p ty')

theorem Paired.congr (h : Paired s f ty ty') (hf : ∀ i, g i = f i)
    (hty : ∀ p : TrsProc, p.pid ≠ 0 → t.owned p ty = s.owned p ty)
    (hty' : ∀ p : TrsProc, p.pid ≠ 0 → t.owned p ty' = s.owned p ty') : Paired t g ty ty' := by
  intro p hp
  rw [hty p hp, hty' p hp]
  exact (h p hp).congr fun i _ => (hf i).symm

/-- A process gets a pair. -/
theorem Paired.add (h : Paired s f ty ty')
    (hty : ∀ p : TrsProc, p.pid ≠ 0 →
      t.owned p ty = if p = proc then insert i (s.owned p ty) else s.owned p ty)
    (hty' : ∀ p : TrsProc, p.pid ≠ 0 →
      t.owned p ty' = if p = proc then insert j (s.owned p ty') else s.owned p ty')
    (hi : ∀ p : TrsProc, p.pid ≠ 0 → i ∉ s.owned p ty)
    (hj : ∀ p : TrsProc, p.pid ≠ 0 → j ∉ s.owned p ty') :
    Paired t (Function.update f i j) ty ty' := by
  intro p hp
  have old : Set.BijOn (Function.update f i j) (s.owned p ty) (s.owned p ty') := by
    refine (h p hp).congr fun k hk => (Function.update_of_ne ?_ ..).symm
    rintro rfl
    exact hi p hp hk
  rw [hty p hp, hty' p hp]
  split_ifs
  · have new := old.insert (a := i) (by rw [Function.update_self]; exact hj p hp)
    rwa [Function.update_self] at new
  · exact old

/-- A process gives up a pair. -/
theorem Paired.remove (h : Paired s f ty ty') (hi : i ∈ s.owned proc ty) (hf : ∀ k, g k = f k)
    (hty : ∀ p : TrsProc, p.pid ≠ 0 →
      t.owned p ty = if p = proc then s.owned p ty \ {i} else s.owned p ty)
    (hty' : ∀ p : TrsProc, p.pid ≠ 0 →
      t.owned p ty' = if p = proc then s.owned p ty' \ {f i} else s.owned p ty') :
    Paired t g ty ty' := by
  intro p hp
  rw [hty p hp, hty' p hp]
  split_ifs with heq
  · subst heq
    exact ((h p hp).sdiff_singleton hi).congr fun k _ => (hf k).symm
  · exact (h p hp).congr fun k _ => (hf k).symm

/-- No two queues, of any processes, are in a pair with one queue. -/
theorem Paired.inj (h : Paired s f ty ty') (hp : p.pid ≠ 0) (hq : q.pid ≠ 0)
    (hi : i ∈ s.owned p ty) (hk : k ∈ s.owned q ty) (heq : f i = f k) : i = k := by
  have hpi : s.has p (ty', f i) = true := (h p hp).mapsTo hi
  have hqk : s.has q (ty', f k) = true := (h q hq).mapsTo hk
  rw [← heq] at hqk
  obtain rfl := TsInst.has_unique hpi hqk
  exact (h p hp).injOn hi hk heq

/-- The hardware queues in the pair mode, and their channels. -/
structure HwPaired (s : TsInst) : Prop where
  pairs : Paired s (fun i => (s.sqCtx i).cqid) trsHwSq trsHwCq
  chan : ∀ p : TrsProc, p.pid ≠ 0 → ∀ i ∈ s.owned p trsHwSq,
    s.cqCtx (s.sqCtx i).cqid = (s.sqCtx i).chanId
  inj : ∀ p q : TrsProc, p.pid ≠ 0 → q.pid ≠ 0 → ∀ i ∈ s.owned p trsHwSq,
    ∀ k ∈ s.owned q trsHwSq, (s.sqCtx i).chanId = (s.sqCtx k).chanId → i = k

theorem HwPaired.congr (h : HwPaired s) (hsq : t.sqCtx = s.sqCtx) (hcq : t.cqCtx = s.cqCtx)
    (hown : ∀ p : TrsProc, p.pid ≠ 0 → t.owned p trsHwSq = s.owned p trsHwSq)
    (hown' : ∀ p : TrsProc, p.pid ≠ 0 → t.owned p trsHwCq = s.owned p trsHwCq) : HwPaired t where
  pairs := h.pairs.congr (by simp [hsq]) hown hown'
  chan := fun p hp i hi => by
    rw [hsq, hcq]
    exact h.chan p hp i (hown p hp ▸ hi)
  inj := fun p q hp hq i hi k hk => by
    rw [hsq]
    exact h.inj p q hp hq i (hown p hp ▸ hi) k (hown q hq ▸ hk)

/-- The CQ that the free of a pair is called with is the one of the SQ. -/
theorem HwPaired.cqid_eq (h : HwPaired s) (hproc : proc.pid ≠ 0)
    (hcheck : pairModeFreeParaCheck proc s i j = true) :
    i ∈ s.owned proc trsHwSq ∧ j = (s.sqCtx i).cqid := by
  simp only [pairModeFreeParaCheck, Bool.and_eq_true, decide_eq_true_eq] at hcheck
  obtain ⟨⟨hi, hj⟩, hchan⟩ := hcheck
  obtain ⟨k, hk, rfl⟩ := (h.pairs proc hproc).surjOn hj
  rw [h.chan proc hproc k hk] at hchan
  rw [h.inj proc proc hproc hproc i hi k hk hchan]
  exact ⟨hk, rfl⟩

structure InstInv (s : TsInst) : Prop where
  res : ResInv [] s.res
  hw : s.stars = true → HwPaired s
  cb : Paired s s.cbCq trsCbCq trsCbSq

namespace InstInv

theorem recycleInv (h : InstInv s) (hproc : proc.pid ≠ 0) : RecycleInv proc s where
  res := h.res
  hw := fun hstars => (h.hw hstars).pairs proc hproc
  cb := h.cb proc hproc

theorem init (maxId : ℕ → ℕ) (stars : Bool) : InstInv (instInit maxId stars) := by
  have none (p : TrsProc) (hp : p.pid ≠ 0) (ty : ℕ) :
      (instInit maxId stars).owned p ty = ∅ := by
    ext i
    simp [TsInst.owned, TsInst.has, trsIsResPidMatch, trsIsIdPidMatch, instInit, resInit, hp.symm]
  refine ⟨.init maxId, fun _ => ⟨fun p hp => ?_, fun p hp i hi => ?_, fun p q hp hq i hi => ?_⟩,
    fun p hp => ?_⟩
  · rw [none p hp, none p hp]
    exact Set.bijOn_empty _
  · simp [none p hp] at hi
  · simp [none p hp] at hi
  · rw [none p hp, none p hp]
    exact Set.bijOn_empty _

/-- An operation that is about other types. -/
theorem frame (h : InstInv s) (hres : ResInv [] t.res) (hstars : t.stars = s.stars)
    (hsq : t.sqCtx = s.sqCtx) (hcq : t.cqCtx = s.cqCtx) (hcb : t.cbCq = s.cbCq)
    (hown : ∀ p : TrsProc, p.pid ≠ 0 → ∀ ty,
      ty = trsHwSq ∨ ty = trsHwCq ∨ ty = trsCbCq ∨ ty = trsCbSq → t.owned p ty = s.owned p ty) :
    InstInv t where
  res := hres
  hw := fun ht => (h.hw (hstars ▸ ht)).congr hsq hcq (fun p hp => hown p hp _ (.inl rfl))
    fun p hp => hown p hp _ (.inr (.inl rfl))
  cb := h.cb.congr (by simp [hcb]) (fun p hp => hown p hp _ (.inr (.inr (.inl rfl))))
    fun p hp => hown p hp _ (.inr (.inr (.inr rfl)))

/-- The state of the ids is the same. -/
theorem sameRes (h : InstInv s) (hres : t.res = s.res) (hstars : t.stars = s.stars)
    (hsq : t.sqCtx = s.sqCtx) (hcq : t.cqCtx = s.cqCtx) (hcb : t.cbCq = s.cbCq) : InstInv t :=
  h.frame (hres ▸ h.res) hstars hsq hcq hcb fun p _ ty _ => TsInst.owned_congr hres p ty

/-- Without the pair mode, the hardware queues are not in pairs. -/
theorem nonPair (h : InstInv s) (hres : ResInv [] t.res) (hstars : s.stars = false)
    (hstars' : t.stars = s.stars) (hcb : t.cbCq = s.cbCq)
    (hown : ∀ p : TrsProc, p.pid ≠ 0 → ∀ ty,
      ty = trsCbCq ∨ ty = trsCbSq → t.owned p ty = s.owned p ty) : InstInv t where
  res := hres
  hw := fun ht => by
    rw [hstars', hstars] at ht
    cases ht
  cb := h.cb.congr (by simp [hcb]) (fun p hp => hown p hp _ (.inl rfl))
    fun p hp => hown p hp _ (.inr rfl)

/-! ### The queues are freed -/

/-- An id of a type without pairs is freed. -/
theorem delRes (h : InstInv s) (hproc : proc.pid ≠ 0)
    (hty : ty ≠ trsHwSq ∧ ty ≠ trsHwCq ∧ ty ≠ trsCbCq ∧ ty ≠ trsCbSq) :
    InstInv (s.delRes proc (ty, j)) := by
  refine h.frame (TsInst.delRes_resInv hproc h.res) (by simp) (by simp) (by simp) (by simp) ?_
  intro p _ ty' hty'
  refine owned_delRes_type ?_
  rcases hty' with rfl | rfl | rfl | rfl
  · exact hty.1.symm
  · exact hty.2.1.symm
  · exact hty.2.2.1.symm
  · exact hty.2.2.2.symm

section QueueChannels

attribute [local simp] trsHwSqcqFreePair trsHwSqcqFreeSqChan trsHwSqcqFreeCqChan trsSwSqcqFree
  TsInst.chanDestroy TsInst.sqCtxUninit TsInst.cqCtxUninit

theorem freePair (h : InstInv s) (hproc : proc.pid ≠ 0) (hstars : s.stars = true)
    (hi : i ∈ s.owned proc trsHwSq) :
    InstInv (trsHwSqcqFreePair proc s i (s.sqCtx i).cqid) := by
  have hw := h.hw hstars
  have ownT (p : TrsProc) (ty : ℕ) :
      (trsHwSqcqFreePair proc s i (s.sqCtx i).cqid).owned p ty =
        (TsInst.delRes proc (s.delRes proc (trsHwSq, i)) (trsHwCq, (s.sqCtx i).cqid)).owned p ty := by
    refine TsInst.owned_congr ?_ p ty
    change ((TsInst.delRes proc _ _).delRes proc _).res = _
    exact TsInst.delRes_res_congr (TsInst.delRes_res_congr rfl)
  have ownSq (p : TrsProc) : (trsHwSqcqFreePair proc s i (s.sqCtx i).cqid).owned p trsHwSq =
      if p = proc then s.owned p trsHwSq \ {i} else s.owned p trsHwSq := by
    rw [ownT, owned_delRes_type (by decide), owned_delRes]
  have ownCq (p : TrsProc) : (trsHwSqcqFreePair proc s i (s.sqCtx i).cqid).owned p trsHwCq =
      if p = proc then s.owned p trsHwCq \ {(s.sqCtx i).cqid} else s.owned p trsHwCq := by
    rw [ownT, owned_delRes, owned_delRes_type (by decide)]
  -- an SQ that is left is another one, and so is its CQ
  have left {p : TrsProc} (hp : p.pid ≠ 0) {k : ℕ}
      (hk : k ∈ (trsHwSqcqFreePair proc s i (s.sqCtx i).cqid).owned p trsHwSq) :
      k ∈ s.owned p trsHwSq ∧ k ≠ i := by
    rw [ownSq] at hk
    split_ifs at hk with heq
    · exact ⟨hk.1, hk.2⟩
    · refine ⟨hk, ?_⟩
      rintro rfl
      exact heq (TsInst.has_unique hk hi)
  refine ⟨TsInst.delRes_resInv hproc (TsInst.delRes_resInv hproc h.res), fun _ => ⟨?_, ?_, ?_⟩, ?_⟩
  · refine hw.pairs.remove hi (fun k => ?_) (fun p _ => ownSq p) fun p _ => ownCq p
    by_cases hk : k = i <;> simp [hk]
  · intro p hp k hk
    obtain ⟨hk, hne⟩ := left hp hk
    have hcq : (s.sqCtx k).cqid ≠ (s.sqCtx i).cqid := fun heq =>
      hne (hw.pairs.inj hp hproc hk hi heq)
    simpa [hne, hcq] using hw.chan p hp k hk
  · intro p q hp hq k hk l hl heq
    obtain ⟨hk, hnek⟩ := left hp hk
    obtain ⟨hl, hnel⟩ := left hq hl
    exact hw.inj p q hp hq k hk l hl (by simpa [hnek, hnel] using heq)
  · refine h.cb.congr (by simp) (fun p _ => ?_) fun p _ => ?_
    · rw [ownT, owned_delRes_type (by decide), owned_delRes_type (by decide)]
    · rw [ownT, owned_delRes_type (by decide), owned_delRes_type (by decide)]

/-- Without pairs, an SQ is freed. -/
theorem freeSqChan (h : InstInv s) (hproc : proc.pid ≠ 0) (hstars : s.stars = false) :
    InstInv (trsHwSqcqFreeSqChan proc s i) := by
  refine h.nonPair (TsInst.delRes_resInv hproc h.res) hstars (by simp) (by simp) fun p _ ty hty => ?_
  change (s.delRes proc (trsHwSq, i)).owned p ty = _
  refine owned_delRes_type ?_
  rcases hty with rfl | rfl <;> decide

/-- Without pairs, a CQ is freed. -/
theorem freeCqChan (h : InstInv s) (hproc : proc.pid ≠ 0) (hstars : s.stars = false) :
    InstInv (trsHwSqcqFreeCqChan proc s j) := by
  refine h.nonPair (TsInst.delRes_resInv hproc h.res) hstars (by simp) (by simp) fun p _ ty hty => ?_
  change (s.delRes proc (trsHwCq, j)).owned p ty = _
  refine owned_delRes_type ?_
  rcases hty with rfl | rfl <;> decide

theorem freeSw (h : InstInv s) (hproc : proc.pid ≠ 0) : InstInv (trsSwSqcqFree proc s i j) := by
  have cleared : InstInv { s with
      swSqCtx := Function.update s.swSqCtx i { s.swSqCtx i with chanId := -1 }
      swCqCtx := Function.update s.swCqCtx j (-1) } := h.sameRes rfl rfl rfl rfl rfl
  have sqFreed : InstInv (TsInst.delRes proc _ (trsSwSq, i)) := cleared.delRes hproc (by decide)
  have cqFreed : InstInv (TsInst.delRes proc _ (trsSwCq, j)) := sqFreed.delRes hproc (by decide)
  exact cqFreed.sameRes rfl rfl rfl rfl rfl

end QueueChannels

/-- A callback CQ is freed with its SQ. -/
theorem freeCb (h : InstInv s) (hproc : proc.pid ≠ 0) : InstInv (trsCbSqcqFree proc s i j) := by
  unfold trsCbSqcqFree
  split
  · exact h
  split
  · exact h
  next hhas _ =>
  have hmem : j ∈ s.owned proc trsCbCq := by simpa [TsInst.owned] using hhas
  refine ⟨TsInst.delRes_resInv hproc (TsInst.delRes_resInv hproc h.res), fun hstars => ?_, ?_⟩
  · refine (h.hw (by simpa using hstars)).congr (by simp) (by simp) (fun p _ => ?_) fun p _ => ?_
    · rw [owned_delRes_type (by decide), owned_delRes_type (by decide)]
    · rw [owned_delRes_type (by decide), owned_delRes_type (by decide)]
  · refine h.cb.remove hmem (fun k => by simp) (fun p _ => ?_) fun p _ => ?_
    · rw [owned_delRes_type (by decide), owned_delRes]
    · rw [owned_delRes, owned_delRes_type (by decide)]

/-! ### The queues are allocated -/

theorem not_chan_of_new (hnew : s.newChan chanId = true) {p : TrsProc}
    (hp : p.pid ≠ 0) (hi : i ∈ s.owned p trsHwSq) : (s.sqCtx i).chanId ≠ chanId := by
  have hhas : s.has p (trsHwSq, i) = true := hi
  obtain ⟨hlt, hpid, -, -⟩ := trsIsResPidMatch_spec hhas hp
  simp only [TsInst.newChan, List.all_eq_true, List.mem_range, Bool.or_eq_true,
    decide_eq_true_eq] at hnew
  exact (hnew i hlt).resolve_left hpid

theorem allocPair (h : InstInv s) (hproc : proc.pid ≠ 0) (hstars : s.stars = true)
    (hsq : s.canAdd (trsHwSq, i) = true) (hcq : s.canAdd (trsHwCq, j) = true)
    (hnew : s.newChan chanId = true) : InstInv (trsHwSqcqAllocPair proc s i j chanId) := by
  have hw := h.hw hstars
  have res1 : ResInv [] (s.addRes proc (trsHwSq, i)).res := TsInst.addRes_resInv hproc h.res hsq
  have hcq1 : (s.addRes proc (trsHwSq, i)).canAdd (trsHwCq, j) = true :=
    canAdd_addRes h.res hsq hcq (by decide)
  have ownT (p : TrsProc) (ty : ℕ) : (trsHwSqcqAllocPair proc s i j chanId).owned p ty =
      ((s.addRes proc (trsHwSq, i)).addRes proc (trsHwCq, j)).owned p ty := rfl
  have ownSq (p : TrsProc) (hp : p.pid ≠ 0) :
      (trsHwSqcqAllocPair proc s i j chanId).owned p trsHwSq =
        if p = proc then insert i (s.owned p trsHwSq) else s.owned p trsHwSq := by
    rw [ownT, owned_addRes_type res1 hcq1 (by decide), owned_addRes h.res hsq hp]
  have ownCq (p : TrsProc) (hp : p.pid ≠ 0) :
      (trsHwSqcqAllocPair proc s i j chanId).owned p trsHwCq =
        if p = proc then insert j (s.owned p trsHwCq) else s.owned p trsHwCq := by
    rw [ownT, owned_addRes res1 hcq1 hp, owned_addRes_type h.res hsq (by decide)]
  have notSq (p : TrsProc) (hp : p.pid ≠ 0) := not_owned_of_canAdd h.res hsq hp
  have notCq (p : TrsProc) (hp : p.pid ≠ 0) := not_owned_of_canAdd h.res hcq hp
  -- an SQ is the new one, or an old one with another CQ
  have cases {p : TrsProc} (hp : p.pid ≠ 0) {k : ℕ}
      (hk : k ∈ (trsHwSqcqAllocPair proc s i j chanId).owned p trsHwSq) :
      k = i ∨ k ≠ i ∧ k ∈ s.owned p trsHwSq ∧ (s.sqCtx k).cqid ≠ j := by
    have old : k ∈ s.owned p trsHwSq → k ≠ i ∧ k ∈ s.owned p trsHwSq ∧ (s.sqCtx k).cqid ≠ j := by
      intro hold
      refine ⟨?_, hold, ?_⟩
      · rintro rfl
        exact notSq p hp hold
      · rintro rfl
        exact notCq p hp ((hw.pairs p hp).mapsTo hold)
    rw [ownSq p hp] at hk
    split_ifs at hk
    · exact hk.imp_right old
    · exact .inr (old hk)
  have sqT (k : ℕ) : (trsHwSqcqAllocPair proc s i j chanId).sqCtx k =
      Function.update s.sqCtx i { cqid := j, chanId := chanId } k := rfl
  have cqT (k : ℕ) : (trsHwSqcqAllocPair proc s i j chanId).cqCtx k =
      Function.update s.cqCtx j chanId k := rfl
  refine ⟨TsInst.addRes_resInv hproc res1 hcq1, fun _ => ⟨?_, ?_, ?_⟩, ?_⟩
  · have added := hw.pairs.add ownSq ownCq notSq notCq
    refine added.congr (fun k => ?_) (fun _ _ => rfl) fun _ _ => rfl
    by_cases hk : k = i <;> simp [sqT, hk]
  · intro p hp k hk
    rcases cases hp hk with rfl | ⟨hne, hk, hcq⟩
    · simp [sqT, cqT]
    · simpa [sqT, cqT, hne, hcq] using hw.chan p hp k hk
  · intro p q hp hq k hk l hl heq
    rcases cases hp hk with rfl | ⟨hnek, oldk, -⟩ <;> rcases cases hq hl with rfl | ⟨hnel, oldl, -⟩
    · rfl
    · simp only [sqT, Function.update_self, Function.update_of_ne hnel] at heq
      exact absurd heq.symm (not_chan_of_new hnew hq oldl)
    · simp only [sqT, Function.update_self, Function.update_of_ne hnek] at heq
      exact absurd heq (not_chan_of_new hnew hp oldk)
    · simp only [sqT, Function.update_of_ne hnek, Function.update_of_ne hnel] at heq
      exact hw.inj p q hp hq k oldk l oldl heq
  · refine h.cb.congr (fun _ => rfl) (fun p _ => ?_) fun p _ => ?_
    · rw [ownT, owned_addRes_type res1 hcq1 (by decide), owned_addRes_type h.res hsq (by decide)]
    · rw [ownT, owned_addRes_type res1 hcq1 (by decide), owned_addRes_type h.res hsq (by decide)]

theorem allocSqChan (h : InstInv s) (hproc : proc.pid ≠ 0) (hstars : s.stars = false)
    (hsq : s.canAdd (trsHwSq, i) = true) : InstInv (trsHwSqcqAllocSqChan proc s i j chanId) := by
  refine h.nonPair (TsInst.addRes_resInv hproc h.res hsq) hstars rfl rfl fun p _ ty hty => ?_
  change (s.addRes proc (trsHwSq, i)).owned p ty = _
  refine owned_addRes_type h.res hsq ?_
  rcases hty with rfl | rfl <;> decide

theorem allocCqChan (h : InstInv s) (hproc : proc.pid ≠ 0) (hstars : s.stars = false)
    (hcq : s.canAdd (trsHwCq, j) = true) : InstInv (trsHwSqcqAllocCqChan proc s j chanId) := by
  refine h.nonPair (TsInst.addRes_resInv hproc h.res hcq) hstars rfl rfl fun p _ ty hty => ?_
  change (s.addRes proc (trsHwCq, j)).owned p ty = _
  refine owned_addRes_type h.res hcq ?_
  rcases hty with rfl | rfl <;> decide

theorem allocSw (h : InstInv s) (hproc : proc.pid ≠ 0) (hsq : s.canAdd (trsSwSq, i) = true)
    (hcq : s.canAdd (trsSwCq, j) = true) : InstInv (trsSwSqcqAlloc proc s i j chanId) := by
  have res1 : ResInv [] (s.addRes proc (trsSwSq, i)).res := TsInst.addRes_resInv hproc h.res hsq
  have hcq1 : (s.addRes proc (trsSwSq, i)).canAdd (trsSwCq, j) = true :=
    canAdd_addRes h.res hsq hcq (by decide)
  refine h.frame (TsInst.addRes_resInv hproc res1 hcq1) rfl rfl rfl rfl fun p _ ty hty => ?_
  change ((s.addRes proc (trsSwSq, i)).addRes proc (trsSwCq, j)).owned p ty = _
  have hne : ty ≠ trsSwCq ∧ ty ≠ trsSwSq := by rcases hty with rfl | rfl | rfl | rfl <;> decide
  rw [owned_addRes_type res1 hcq1 hne.1, owned_addRes_type h.res hsq hne.2]

theorem initCb (h : InstInv s) (hproc : proc.pid ≠ 0) (hsq : s.canAdd (trsCbSq, i) = true)
    (hcq : s.canAdd (trsCbCq, j) = true) : InstInv (trsCbSqcqInit proc s i j) := by
  have res1 : ResInv [] (s.addRes proc (trsCbSq, i)).res := TsInst.addRes_resInv hproc h.res hsq
  have hcq1 : (s.addRes proc (trsCbSq, i)).canAdd (trsCbCq, j) = true :=
    canAdd_addRes h.res hsq hcq (by decide)
  have ownT (p : TrsProc) (ty : ℕ) : (trsCbSqcqInit proc s i j).owned p ty =
      ((s.addRes proc (trsCbSq, i)).addRes proc (trsCbCq, j)).owned p ty := rfl
  have ownCq (p : TrsProc) (hp : p.pid ≠ 0) : (trsCbSqcqInit proc s i j).owned p trsCbCq =
      if p = proc then insert j (s.owned p trsCbCq) else s.owned p trsCbCq := by
    rw [ownT, owned_addRes res1 hcq1 hp, owned_addRes_type h.res hsq (by decide)]
  have ownSq (p : TrsProc) (hp : p.pid ≠ 0) : (trsCbSqcqInit proc s i j).owned p trsCbSq =
      if p = proc then insert i (s.owned p trsCbSq) else s.owned p trsCbSq := by
    rw [ownT, owned_addRes_type res1 hcq1 (by decide), owned_addRes h.res hsq hp]
  refine ⟨TsInst.addRes_resInv hproc res1 hcq1, fun hstars => ?_, ?_⟩
  · refine (h.hw hstars).congr rfl rfl (fun p _ => ?_) fun p _ => ?_
    · rw [ownT, owned_addRes_type res1 hcq1 (by decide), owned_addRes_type h.res hsq (by decide)]
    · rw [ownT, owned_addRes_type res1 hcq1 (by decide), owned_addRes_type h.res hsq (by decide)]
  · exact h.cb.add ownCq ownSq (fun p hp => not_owned_of_canAdd h.res hcq hp)
      fun p hp => not_owned_of_canAdd h.res hsq hp

/-! ### The processes exit -/

/-- A walk preserves what its callback preserves. -/
theorem walk (hproc : proc.pid ≠ 0) {f : TsInst → ℕ → ℕ → TsInst}
    (hf : ∀ t i, InstInv t → t.has proc (ty, i) = true → InstInv (f t ty i)) (h : InstInv s) :
    InstInv (trsForEachProcResId proc s ty f) := by
  unfold trsForEachProcResId
  split_ifs
  · exact h
  · refine Walk.preserves (fun t k _ ht hmatch => hf t k ht ?_) h
    have hpid : (t.res.ids (ty, k)).pid ≠ 0 := by
      simp only [trsIsIdPidMatch, Bool.and_eq_true, decide_eq_true_eq] at hmatch
      rw [hmatch.1.1]
      exact hproc
    rw [← TsInst.match_eq_has ((ht.res.refs.each _).range hpid)]
    exact hmatch

theorem hwRecycle (hproc : proc.pid ≠ 0) (h : InstInv s) (hty : ty = trsHwSq ∨ ty = trsHwCq)
    (hhas : s.has proc (ty, i) = true) : InstInv (trsHwSqcqRecycle proc s ty i) := by
  unfold trsHwSqcqRecycle
  split_ifs with hsq hstars hstars
  · subst hsq
    exact h.freePair hproc hstars hhas
  · exact h.freeSqChan hproc (by simpa using hstars)
  · exact h
  · exact h.freeCqChan hproc (by simpa using hstars)

theorem swRecycle (hty : ty ≠ trsHwSq) (h : InstInv s) :
    InstInv (trsSwSqcqRecycle proc s ty i) := by
  rw [trsSwSqcqRecycle, if_neg hty]
  exact h

theorem cbRecycle (hproc : proc.pid ≠ 0) (h : InstInv s) :
    InstInv (trsCbSqcqRecycle proc s ty i) := by
  unfold trsCbSqcqRecycle
  split
  · exact h.freeCb hproc
  · exact h

theorem logicRecycle (hproc : proc.pid ≠ 0) (h : InstInv s) :
    InstInv (trsLogicCqRecycle proc s ty i) := by
  unfold trsLogicCqRecycle
  split
  · exact h
  · exact h.delRes hproc (by decide)

theorem release (hproc : proc.pid ≠ 0) (h : InstInv s) : InstInv (trsProcReleaseInst proc s) := by
  unfold trsProcReleaseInst
  split
  · exact h
  · refine walk hproc (fun t i ht _ => ht.cbRecycle hproc) ?_
    refine walk hproc (fun t i ht _ => ht.cbRecycle hproc) ?_
    exact walk hproc (fun t i ht _ => ht.logicRecycle hproc) h

theorem plainIds (hproc : proc.pid ≠ 0) (tys : List ℕ) (htys : ∀ ty ∈ tys, ty < trsHwSq)
    (h : InstInv s) : InstInv (tys.foldl
      (fun s ty => trsForEachProcResId proc s ty (trsResIdRecycle proc)) s) := by
  induction tys generalizing s with
  | nil => exact h
  | cons ty tys ih =>
    have hty : ty < trsHwSq := htys ty (.head _)
    refine ih (fun ty hty => htys ty (.tail _ hty)) (walk hproc (fun t i ht _ => ?_) h)
    simp only [trsHwSq] at hty
    refine ht.delRes hproc ?_
    simp only [trsHwSq, trsHwCq, trsCbCq, trsCbSq]
    omega

theorem shmFreePhySq (h : InstInv s) : InstInv (trsShmFreePhySq s) := by
  rw [trsShmFreePhySq]
  dsimp only
  split_ifs
  · exact h.sameRes rfl rfl rfl rfl rfl
  · exact h.sameRes rfl rfl rfl rfl rfl

theorem shmFreePhyCq (h : InstInv s) : InstInv (trsShmFreePhyCq proc s) := by
  rw [trsShmFreePhyCq]
  split_ifs
  · exact h.sameRes rfl rfl rfl rfl rfl
  · exact h

theorem recycle (hproc : proc.pid ≠ 0) (h : InstInv s) :
    InstInv (trsProcRecycleInst proc s).1 := by
  have start : InstInv (if 0 ≤ s.procShm proc then trsShmSqcqRecycle proc s else s) := by
    split
    · exact h.shmFreePhySq.shmFreePhyCq
    · exact h
  have hwSq := walk hproc (fun t i ht hhas => ht.hwRecycle hproc (.inl rfl) hhas) start
  have hwCq := walk hproc (fun t i ht hhas => ht.hwRecycle hproc (.inr rfl) hhas) hwSq
  have swSq : InstInv (trsForEachProcResId proc _ trsSwSq (trsSwSqcqRecycle proc)) :=
    walk hproc (fun t i ht _ => ht.swRecycle (by decide)) hwCq
  have swCq : InstInv (trsForEachProcResId proc _ trsSwCq (trsSwSqcqRecycle proc)) :=
    walk hproc (fun t i ht _ => ht.swRecycle (by decide)) swSq
  unfold trsProcRecycleInst
  split_ifs
  · exact plainIds hproc (List.range trsHwSq) (by simp) swCq
  · exact h
  · exact h

/-! ### The ids without a channel -/

/-- The put of a reference: a process that has the id still has it. -/
theorem match_resPut {a : ResState} (h : ResInv [res] a) (hp : p.pid ≠ 0) (r : TrsRes) :
    trsIsIdPidMatch ((trsResPut a res).ids r) p = trsIsIdPidMatch (a.ids r) p := by
  rcases eq_or_ne r res with rfl | hr
  · have href := (h.refs.each r).ref
    rw [List.count_singleton_self] at href
    have hbit := bit_nonneg (a.ids r).allocated
    unfold trsResPut
    dsimp only
    split_ifs with hmax hzero hlast
    · rfl
    · rfl
    · -- the last reference: the allocation was freed before
      have hfreed : (a.ids r).allocated = false := bit_eq_zero.mp (by omega)
      change trsIsIdPidMatch ((a.setIds r _).ids r) p = _
      rw [ResState.setIds_self]
      simp only [TrsResIds.allocated, Bool.and_eq_false_iff] at hfreed
      have before : trsIsIdPidMatch (a.ids r) p = false := by
        rw [← Bool.not_eq_true]
        intro hmatch
        simp only [trsIsIdPidMatch, Bool.and_eq_true, decide_eq_true_eq] at hmatch
        simp [hmatch.1.1, hp, hmatch.2] at hfreed
      rw [before]
      simp [trsIsIdPidMatch, hp.symm]
    · rw [ResState.setIds_self]
      rfl
  · rw [TsInst.resPut_ids_of_ne _ hr]

/-- An operation on other ids keeps the queues that each process has. -/
theorem match_resStep {a b : ResState} {op : ResOp} (h : ResInv [] a) (hid : isIdOp op = true)
    (hstep : resStep a op = some b) (hp : p.pid ≠ 0) (hr : isQueueType r.1 = true) :
    b.maxId = a.maxId ∧ trsIsIdPidMatch (b.ids r) p = trsIsIdPidMatch (a.ids r) p := by
  have other {res : TrsRes} (hres : (!isQueueType res.1) = true) : r ≠ res := by
    rintro rfl
    rw [hr] at hres
    cases hres
  cases op with
  | alloc proc res notice =>
      simp only [resStep, Option.ite_none_right_eq_some] at hstep
      obtain ⟨-, hstep⟩ := hstep
      split_ifs at hstep <;> exact Option.some.inj hstep ▸ ⟨rfl, rfl⟩
  | addRes proc res =>
      simp only [resStep, Option.ite_none_right_eq_some, Option.some.injEq] at hstep
      obtain ⟨-, rfl⟩ := hstep
      unfold trsProcAddRes
      split_ifs
      · exact ⟨rfl, rfl⟩
      · exact ⟨rfl, congrArg (trsIsIdPidMatch · p) (ResState.setIds_of_ne _ (other hid))⟩
  | free proc res =>
      simp only [resStep, Option.ite_none_right_eq_some, Option.some.injEq] at hstep
      obtain ⟨-, rfl⟩ := hstep
      unfold trsProcDelRes
      split_ifs
      · exact ⟨rfl, congrArg (trsIsIdPidMatch · p) (ResState.setIds_of_ne _ (other hid))⟩
      · exact ⟨rfl, rfl⟩
  | freePut res =>
      simp only [resStep, Option.ite_none_right_eq_some, Option.some.injEq] at hstep
      obtain ⟨hres, rfl⟩ := hstep
      exact ⟨TsInst.resPut_maxId .., match_resPut (h.fromFreeing hres) hp r⟩
  | get proc res =>
      simp only [resStep, Option.ite_none_right_eq_some] at hstep
      obtain ⟨-, hstep⟩ := hstep
      split_ifs at hstep
      · exact Option.some.inj hstep ▸ ⟨rfl, rfl⟩
      · split at hstep
        · exact Option.some.inj hstep ▸ ⟨rfl, rfl⟩
        · next u hget =>
          simp only [trsResGet, Option.ite_none_right_eq_some, Option.some.injEq] at hget
          obtain ⟨-, rfl⟩ := hget
          obtain rfl := Option.some.inj hstep
          refine ⟨rfl, ?_⟩
          change trsIsIdPidMatch ((a.setIds res _).ids r) p = _
          rcases eq_or_ne r res with rfl | hne
          · rw [ResState.setIds_self]
            rfl
          · rw [ResState.setIds_of_ne _ hne]
  | put res =>
      simp only [resStep, Option.ite_none_right_eq_some, Option.some.injEq] at hstep
      obtain ⟨hres, rfl⟩ := hstep
      exact ⟨TsInst.resPut_maxId .., match_resPut (h.fromGets hres) hp r⟩
  | giveBack res =>
      simp only [resStep, Option.ite_none_right_eq_some, Option.some.injEq] at hstep
      obtain ⟨-, rfl⟩ := hstep
      exact ⟨rfl, rfl⟩

theorem resOp {a : ResState} {op : ResOp} (h : InstInv s) (hid : isIdOp op = true)
    (hstep : resStep s.res op = some a) : InstInv { s with res := a } := by
  refine h.frame (h.res.step hstep) rfl rfl rfl rfl fun p hp ty hty => ?_
  have hqueue : isQueueType ty = true := by rcases hty with rfl | rfl | rfl | rfl <;> decide
  ext i
  have same := match_resStep (r := (ty, i)) h.res hid hstep hp hqueue
  change trsIsResPidMatch a p (ty, i) = true ↔ trsIsResPidMatch s.res p (ty, i) = true
  rw [trsIsResPidMatch, trsIsResPidMatch, same.1, same.2]

/-! ### Every run -/

theorem step (h : InstInv s) {op : InstOp} (hstep : instStep s op = some t) : InstInv t := by
  cases op with
  | res op =>
      simp only [instStep, Option.ite_none_right_eq_some, Option.map_eq_some_iff] at hstep
      obtain ⟨hid, a, ha, rfl⟩ := hstep
      exact h.resOp hid ha
  | hwAllocPair proc sqid cqid chanId =>
      simp only [instStep, Option.ite_none_right_eq_some, Option.some.injEq] at hstep
      obtain ⟨⟨hproc, hstars, hsq, hcq, hnew⟩, rfl⟩ := hstep
      exact h.allocPair hproc hstars hsq hcq hnew
  | hwFreePair proc sqid cqid =>
      simp only [instStep, Option.ite_none_right_eq_some, Option.some.injEq] at hstep
      obtain ⟨⟨hproc, hstars, hcheck⟩, rfl⟩ := hstep
      obtain ⟨hsq, rfl⟩ := (h.hw hstars).cqid_eq hproc hcheck
      exact h.freePair hproc hstars hsq
  | hwAllocSqChan proc sqid cqid chanId =>
      simp only [instStep, Option.ite_none_right_eq_some, Option.some.injEq] at hstep
      obtain ⟨⟨hproc, hstars, hsq⟩, rfl⟩ := hstep
      exact h.allocSqChan hproc hstars hsq
  | hwFreeSqChan proc sqid =>
      simp only [instStep, Option.ite_none_right_eq_some, Option.some.injEq] at hstep
      obtain ⟨⟨hproc, hstars, -⟩, rfl⟩ := hstep
      exact h.freeSqChan hproc hstars
  | hwAllocCqChan proc cqid chanId =>
      simp only [instStep, Option.ite_none_right_eq_some, Option.some.injEq] at hstep
      obtain ⟨⟨hproc, hstars, hcq⟩, rfl⟩ := hstep
      exact h.allocCqChan hproc hstars hcq
  | hwFreeCqChan proc cqid =>
      simp only [instStep, Option.ite_none_right_eq_some, Option.some.injEq] at hstep
      obtain ⟨⟨hproc, hstars, -⟩, rfl⟩ := hstep
      exact h.freeCqChan hproc hstars
  | swAlloc proc sqid cqid chanId =>
      simp only [instStep, Option.ite_none_right_eq_some, Option.some.injEq] at hstep
      obtain ⟨⟨hproc, hsq, hcq⟩, rfl⟩ := hstep
      exact h.allocSw hproc hsq hcq
  | swFree proc sqid cqid =>
      simp only [instStep, Option.ite_none_right_eq_some, Option.some.injEq] at hstep
      obtain ⟨⟨hproc, -⟩, rfl⟩ := hstep
      exact h.freeSw hproc
  | cbAlloc proc sqid cqid =>
      simp only [instStep, Option.ite_none_right_eq_some, Option.some.injEq] at hstep
      obtain ⟨⟨hproc, hsq, hcq⟩, rfl⟩ := hstep
      exact h.initCb hproc hsq hcq
  | cbFree proc sqid cqid =>
      simp only [instStep, Option.ite_none_right_eq_some, Option.some.injEq] at hstep
      obtain ⟨hproc, rfl⟩ := hstep
      exact h.freeCb hproc
  | shm shmCtx procShm destroyed =>
      obtain rfl := Option.some.inj hstep
      exact h.sameRes rfl rfl rfl rfl rfl
  | mode partFeatur releaseCheck =>
      obtain rfl := Option.some.inj hstep
      exact h.sameRes rfl rfl rfl rfl rfl
  | release proc =>
      simp only [instStep, Option.ite_none_right_eq_some, Option.some.injEq] at hstep
      obtain ⟨hproc, rfl⟩ := hstep
      exact h.release hproc
  | recycle proc =>
      simp only [instStep, Option.ite_none_right_eq_some, Option.some.injEq] at hstep
      obtain ⟨hproc, rfl⟩ := hstep
      exact h.recycle hproc

theorem of_reach (h : instMachine.Reach s) : InstInv s := by
  refine h.invariant (fun s hs => ?_) fun s op t hs _ hstep => hs.step hstep
  obtain ⟨maxId, stars, rfl⟩ := hs
  exact .init maxId stars

end InstInv

end OpiaiKernel.Trs.Recycle
