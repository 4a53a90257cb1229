import OpiaiKernel.Trs.InstSteps

/-!
# The references of an exiting process

When a process exits, the driver goes over the instances of its device, takes a reference
to each and gives it back behind the work.  The release leaves an instance with a part of
the features in the middle of the loop, with the reference.

The functions are translated from `trs_proc.c` and `trs_ts_inst.c`.
-/

namespace OpiaiKernel.Trs.ExitRefs

open OpiaiKernel.Trs.Recycle

def TRS_DEV_MAX_NUM : ℕ := 1124

def TRS_TS_MAX_NUM : ℕ := 2

/-- A registered instance with its `kref`. -/
structure InstRef where
  inst : TsInst
  ref : ℕ
  pos : 0 < ref

def InstRef.get (r : InstRef) : InstRef := ⟨r.inst, r.ref + 1, Nat.succ_pos r.ref⟩

/-- `kref_put`; with the last reference the instance is freed. -/
def InstRef.put (r : InstRef) : Option InstRef :=
  if h : 1 < r.ref then some ⟨r.inst, r.ref - 1, Nat.sub_pos_of_lt h⟩ else none

def InstRef.modify (f : TsInst → TsInst) (r : InstRef) : InstRef := ⟨f r.inst, r.ref, r.pos⟩

/-- The array `core_ts_inst`. -/
abbrev CoreInsts := ℕ → Option InstRef

def trsIdInstToTsInst (devid tsid : ℕ) : ℕ := devid * TRS_TS_MAX_NUM + tsid

/-- The instance with an id that `trs_id_inst_check` accepts. -/
def instOf (t : CoreInsts) (devid tsid : ℕ) : Option InstRef :=
  if devid ≥ TRS_DEV_MAX_NUM ∨ tsid ≥ TRS_TS_MAX_NUM then none
  else t (trsIdInstToTsInst devid tsid)

def trsCoreInstGet (t : CoreInsts) (devid tsid : ℕ) : Option TsInst × CoreInsts :=
  match instOf t devid tsid with
  | none => (none, t)
  | some r => (some r.inst, Function.update t (trsIdInstToTsInst devid tsid) (some r.get))

def trsCoreInstPut (t : CoreInsts) (k : ℕ) : CoreInsts :=
  Function.update t k ((t k).bind InstRef.put)

/-- The work on an instance. -/
def onInst (t : CoreInsts) (k : ℕ) (f : TsInst → TsInst) : CoreInsts :=
  Function.update t k ((t k).map (InstRef.modify f))

/-- An iteration of `trs_proc_release`; the messages to the device leave the instances as
they are.  The flag is `-EBUSY`. -/
def releaseStep (proc : TrsProc) (devid : ℕ) (s : CoreInsts × Bool) (tsid : ℕ) :
    CoreInsts × Bool :=
  match trsCoreInstGet s.1 devid tsid with
  | (none, t) => (t, s.2)
  | (some inst, t) =>
      if inst.partFeatur then (t, s.2)
      else
        let t := onInst t (trsIdInstToTsInst devid tsid) (trsProcReleaseInst proc)
        let leak := trsProcIsResLeak proc (trsProcReleaseInst proc inst)
        (trsCoreInstPut t (trsIdInstToTsInst devid tsid), s.2 || leak)

def trsProcRelease (proc : TrsProc) (devid : ℕ) (t : CoreInsts) : CoreInsts × Bool :=
  (List.range TRS_TS_MAX_NUM).foldl (releaseStep proc devid) (t, false)

/-- The loop of `trs_proc_release_check_ts` with the given number of tries left.  The device
answers the tries in their order. -/
def trsProcReleaseCheckTs (answer : ℕ → Bool) (devid tsid : ℕ) : ℕ → CoreInsts → Bool × CoreInsts
  | 0, t => (false, t)
  | n + 1, t =>
      match trsCoreInstGet t devid tsid with
      | (none, t) => (true, t)
      | (some _, t) =>
          let t := trsCoreInstPut t (trsIdInstToTsInst devid tsid)
          if answer (300 - (n + 1)) then (true, t)
          else trsProcReleaseCheckTs answer devid tsid n t

/-- An iteration of `trs_proc_recycle`. -/
def recycleStep (proc : TrsProc) (devid : ℕ) (answer : ℕ → ℕ → Bool) (s : CoreInsts × Bool)
    (tsid : ℕ) : CoreInsts × Bool :=
  match trsCoreInstGet s.1 devid tsid with
  | (none, t) => (t, s.2)
  | (some inst, t) =>
      if trsProcIsResLeak proc inst then
        let (ok, t) := trsProcReleaseCheckTs (answer tsid) devid tsid 300 t
        let t := if ok then
            onInst t (trsIdInstToTsInst devid tsid) (Recycle.trsProcTsResRecycle proc) else t
        (trsCoreInstPut t (trsIdInstToTsInst devid tsid), s.2 || !ok)
      else (trsCoreInstPut t (trsIdInstToTsInst devid tsid), s.2)

def trsProcRecycle (proc : TrsProc) (devid : ℕ) (answer : ℕ → ℕ → Bool) (t : CoreInsts) :
    CoreInsts × Bool :=
  (List.range TRS_TS_MAX_NUM).foldl (recycleStep proc devid answer) (t, false)

/-- The reference counts of all instances. -/
def refs (t : CoreInsts) (k : ℕ) : Option ℕ := (t k).map InstRef.ref

/-- The exit of a process keeps every reference count. -/
structure RefsKept (proc : TrsProc) (devid : ℕ) (answer : ℕ → ℕ → Bool) (t : CoreInsts) : Prop where
  release : refs (trsProcRelease proc devid t).1 = refs t
  recycle : refs (trsProcRecycle proc devid answer t).1 = refs t

variable {proc : TrsProc} {devid tsid k : ℕ} {answer : ℕ → ℕ → Bool} {t : CoreInsts} {busy : Bool}
  {r : InstRef} {f : TsInst → TsInst}

/-! ## Getting and putting -/

theorem put_get : r.get.put = some r := by
  have hlt : 1 < r.get.ref := Nat.succ_lt_succ r.pos
  rw [InstRef.put, dif_pos hlt]
  rfl

theorem put_modify_get : (r.get.modify f).put = some (r.modify f) := put_get (r := r.modify f)

theorem trsCoreInstGet_none (h : instOf t devid tsid = none) :
    trsCoreInstGet t devid tsid = (none, t) := by
  rw [trsCoreInstGet, h]

theorem trsCoreInstGet_some (h : instOf t devid tsid = some r) :
    trsCoreInstGet t devid tsid =
      (some r.inst, Function.update t (trsIdInstToTsInst devid tsid) (some r.get)) := by
  rw [trsCoreInstGet, h]

theorem instOf_eq (h : instOf t devid tsid = some r) :
    t (trsIdInstToTsInst devid tsid) = some r := by
  rw [instOf] at h
  split at h
  · cases h
  · exact h

/-- What is put behind the work is what was got. -/
theorem put_onInst_get :
    trsCoreInstPut (onInst (Function.update t k (some r.get)) k f) k =
      Function.update t k (some (r.modify f)) := by
  rw [trsCoreInstPut, onInst, Function.update_self, Function.update_self, Function.update_idem,
    Function.update_idem, Option.map_some, Option.bind_some, put_modify_get]

theorem put_get_eq (h : t k = some r) :
    trsCoreInstPut (Function.update t k (some r.get)) k = t := by
  rw [trsCoreInstPut, Function.update_self, Function.update_idem, Option.bind_some, put_get, ← h,
    Function.update_eq_self]

theorem refs_modify (h : t k = some r) :
    refs (Function.update t k (some (r.modify f))) = refs t := by
  funext j
  rw [refs, refs]
  rcases eq_or_ne j k with rfl | hne
  · rw [Function.update_self, h]
    rfl
  · rw [Function.update_of_ne hne]

/-! ## The recycling -/

/-- The tries of the check give back what they take. -/
theorem checkTs_snd (answer : ℕ → Bool) (n : ℕ) (t : CoreInsts) :
    (trsProcReleaseCheckTs answer devid tsid n t).2 = t := by
  induction n with
  | zero => rfl
  | succ n ih =>
      rw [trsProcReleaseCheckTs]
      cases hinst : instOf t devid tsid with
      | none => rw [trsCoreInstGet_none hinst]
      | some r =>
          rw [trsCoreInstGet_some hinst]
          dsimp only
          rw [put_get_eq (instOf_eq hinst)]
          by_cases hanswer : answer (300 - (n + 1)) = true
          · rw [if_pos hanswer]
          · rw [if_neg hanswer]
            exact ih

theorem refs_recycleStep (s : CoreInsts × Bool) (tsid : ℕ) :
    refs (recycleStep proc devid answer s tsid).1 = refs s.1 := by
  rw [recycleStep]
  cases hinst : instOf s.1 devid tsid with
  | none => rw [trsCoreInstGet_none hinst]
  | some r =>
      have ht := instOf_eq hinst
      rw [trsCoreInstGet_some hinst]
      dsimp only
      by_cases hleak : trsProcIsResLeak proc r.inst = true
      · rw [if_pos hleak]
        dsimp only
        rw [checkTs_snd]
        split
        · rw [put_onInst_get, refs_modify ht]
        · rw [put_get_eq ht]
      · rw [if_neg hleak]
        dsimp only
        rw [put_get_eq ht]

theorem refs_recycle (proc : TrsProc) (devid : ℕ) (answer : ℕ → ℕ → Bool) (t : CoreInsts) :
    refs (trsProcRecycle proc devid answer t).1 = refs t := by
  have hfold : ∀ (tsids : List ℕ) (s : CoreInsts × Bool),
      refs (tsids.foldl (recycleStep proc devid answer) s).1 = refs s.1 := by
    intro tsids
    induction tsids with
    | nil => exact fun s => rfl
    | cons tsid tsids ih =>
        intro s
        rw [List.foldl_cons, ih, refs_recycleStep]
  exact hfold _ _

/-! ## The release -/

/-- What an iteration of the release leaves of an instance. -/
def releasedRef (proc : TrsProc) (r : InstRef) : InstRef :=
  if r.inst.partFeatur then r.get else r.modify (trsProcReleaseInst proc)

theorem releaseStep_fst (s : CoreInsts × Bool) (tsid : ℕ) :
    (releaseStep proc devid s tsid).1 = match instOf s.1 devid tsid with
      | none => s.1
      | some r => Function.update s.1 (trsIdInstToTsInst devid tsid)
          (some (releasedRef proc r)) := by
  rw [releaseStep]
  cases hinst : instOf s.1 devid tsid with
  | none => rw [trsCoreInstGet_none hinst]
  | some r =>
      rw [trsCoreInstGet_some hinst]
      dsimp only
      rw [releasedRef]
      by_cases hpart : r.inst.partFeatur = true
      · rw [if_pos hpart, if_pos hpart]
      · rw [if_neg hpart, if_neg hpart]
        exact put_onInst_get

theorem trsIdInstToTsInst_inj {a b : ℕ} (h : trsIdInstToTsInst devid a = trsIdInstToTsInst devid b) :
    a = b := by
  rw [trsIdInstToTsInst, trsIdInstToTsInst] at h
  omega

/-- An iteration leaves the other instances alone. -/
theorem instOf_releaseStep {s : CoreInsts × Bool} {a b : ℕ} (hne : b ≠ a) :
    instOf (releaseStep proc devid s a).1 devid b = instOf s.1 devid b := by
  have hidx : trsIdInstToTsInst devid b ≠ trsIdInstToTsInst devid a :=
    fun heq => hne (trsIdInstToTsInst_inj heq)
  rw [releaseStep_fst]
  cases instOf s.1 devid a with
  | none => rfl
  | some r =>
      rw [instOf, instOf]
      dsimp only
      rw [Function.update_of_ne hidx]

theorem instOf_release {tsids : List ℕ} {s : CoreInsts × Bool} {b : ℕ} (hb : b ∉ tsids) :
    instOf (tsids.foldl (releaseStep proc devid) s).1 devid b = instOf s.1 devid b := by
  induction tsids generalizing s with
  | nil => rfl
  | cons a tsids ih =>
      rw [List.foldl_cons, ih fun hmem => hb (List.mem_cons_of_mem a hmem),
        instOf_releaseStep fun heq => hb (by rw [heq]; exact List.mem_cons_self)]

theorem instOf_releaseStep_self {s : CoreInsts × Bool} (tsid : ℕ) :
    instOf (releaseStep proc devid s tsid).1 devid tsid =
      (instOf s.1 devid tsid).map (releasedRef proc) := by
  rw [releaseStep_fst]
  cases hinst : instOf s.1 devid tsid with
  | none => exact hinst
  | some r =>
      dsimp only
      rw [instOf] at hinst ⊢
      split at hinst
      · cases hinst
      · rename_i hvalid
        rw [if_neg hvalid, Function.update_self]
        rfl

/-- The loop treats every instance of the device once. -/
theorem instOf_release_mem {tsids : List ℕ} (hnodup : tsids.Nodup) {s : CoreInsts × Bool} {b : ℕ}
    (hb : b ∈ tsids) : instOf (tsids.foldl (releaseStep proc devid) s).1 devid b =
      (instOf s.1 devid b).map (releasedRef proc) := by
  induction tsids generalizing s with
  | nil => cases hb
  | cons a tsids ih =>
      obtain ⟨ha, hnodup⟩ := List.nodup_cons.mp hnodup
      rw [List.foldl_cons]
      rcases List.mem_cons.mp hb with rfl | hb
      · rw [instOf_release ha, instOf_releaseStep_self]
      · have hne : b ≠ a := fun heq => ha (heq ▸ hb)
        rw [ih hnodup hb, instOf_releaseStep hne]

theorem refs_releaseStep {s : CoreInsts × Bool}
    (h : ∀ r, instOf s.1 devid tsid = some r → r.inst.partFeatur = false) :
    refs (releaseStep proc devid s tsid).1 = refs s.1 := by
  rw [releaseStep_fst]
  cases hinst : instOf s.1 devid tsid with
  | none => rfl
  | some r =>
      have hfull : releasedRef proc r = r.modify (trsProcReleaseInst proc) := by
        rw [releasedRef, h r hinst]
        rfl
      dsimp only
      rw [hfull, refs_modify (instOf_eq hinst)]

theorem refs_release_full {tsids : List ℕ} (hnodup : tsids.Nodup) {s : CoreInsts × Bool}
    (h : ∀ tsid ∈ tsids, ∀ r, instOf s.1 devid tsid = some r → r.inst.partFeatur = false) :
    refs (tsids.foldl (releaseStep proc devid) s).1 = refs s.1 := by
  induction tsids generalizing s with
  | nil => rfl
  | cons a tsids ih =>
      obtain ⟨ha, hnodup⟩ := List.nodup_cons.mp hnodup
      rw [List.foldl_cons, ih hnodup fun b hb r hr => ?_, refs_releaseStep (h a List.mem_cons_self)]
      have hne : b ≠ a := fun heq => ha (heq ▸ hb)
      rw [instOf_releaseStep hne] at hr
      exact h b (List.mem_cons_of_mem a hb) r hr

theorem refs_release_iff : refs (trsProcRelease proc devid t).1 = refs t ↔
    ∀ tsid < TRS_TS_MAX_NUM, ∀ r, instOf t devid tsid = some r → r.inst.partFeatur = false := by
  constructor
  · intro hkept tsid htsid r hr
    by_contra hpart
    have hinst : instOf (trsProcRelease proc devid t).1 devid tsid =
        (instOf t devid tsid).map (releasedRef proc) :=
      instOf_release_mem List.nodup_range (List.mem_range.mpr htsid)
    rw [hr, Option.map_some] at hinst
    have hrefs := congrFun hkept (trsIdInstToTsInst devid tsid)
    rw [refs, refs, instOf_eq hinst, instOf_eq hr, releasedRef,
      if_pos (by simpa using hpart)] at hrefs
    exact absurd (Option.some.inj hrefs) (Nat.succ_ne_self r.ref)
  · intro hfull
    exact refs_release_full List.nodup_range fun tsid htsid => hfull tsid (List.mem_range.mp htsid)

/-- The counts are kept exactly if no instance of the device works with a part of the
features. -/
theorem refsKept_iff (proc : TrsProc) (devid : ℕ) (answer : ℕ → ℕ → Bool) (t : CoreInsts) :
    RefsKept proc devid answer t ↔
      ∀ tsid < TRS_TS_MAX_NUM, ∀ r, instOf t devid tsid = some r → r.inst.partFeatur = false :=
  ⟨fun h => refs_release_iff.mp h.release,
    fun h => ⟨refs_release_iff.mpr h, refs_recycle proc devid answer t⟩⟩

/-- One instance, with a part of the features and the reference of the exiting process. -/
def partInsts : CoreInsts := fun k =>
  if k = 0 then some ⟨{ instInit (fun _ => 4) true with partFeatur := true }, 2, Nat.two_pos⟩
  else none

theorem partInsts_leak : ¬ RefsKept ⟨1, 0⟩ 0 (fun _ _ => true) partInsts := by
  intro h
  have hfull := refs_release_iff.mp h.release 0 Nat.two_pos _ rfl
  cases hfull

end OpiaiKernel.Trs.ExitRefs
