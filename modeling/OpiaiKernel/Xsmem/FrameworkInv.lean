import OpiaiKernel.Xsmem.PoolFate
import OpiaiKernel.Xsmem.PoolRefs

/-!
# The invariant of the framework

In every state the references of the pools are accounted for, the lookups by
id and by key lead to the pools that exist, the blocks of every pool are in
order and the ids in use are those of the blocks.
-/

namespace OpiaiKernel.Xsmem

variable {σ ε : Type} {A : PoolAlgo σ ε}

def XsmPool.face (xp : XsmPool σ) : PoolFace where
  poolId := xp.poolId
  refcnt := xp.refcnt
  createPid := xp.createPid
  mntNs := xp.mntNs
  key := xp.key
  members := xp.members

@[simp] theorem face_poolId (xp : XsmPool σ) : xp.face.poolId = xp.poolId := rfl

def facesOf (pools : ℕ → Option (XsmPool σ)) (h : ℕ) : Option PoolFace :=
  (pools h).map XsmPool.face

/-- The ids and the keys lead to the pools. -/
structure NameInv (faces : ℕ → Option PoolFace) (idr : ℕ → Option ℕ) (keyList : List ℕ)
    (nextXp : ℕ) : Prop where
  face_lt : ∀ {h f}, faces h = some f → h < nextXp
  idr_iff : ∀ i h, idr i = some h ↔ ∃ f, faces h = some f ∧ f.poolId = i
  key_iff : ∀ h, h ∈ keyList ↔ ∃ f, faces h = some f
  key_nodup : keyList.Nodup
  key_uniq : ∀ {h h' f f'}, faces h = some f → faces h' = some f' → f.key = f'.key → h = h'

/-- The task table leads to the tasks. -/
structure TaskInv (tasks : ℕ → Option XsmTask) (taskTable : List ℕ) (uniProcessId : ℕ) :
    Prop where
  task_le : ∀ {u t}, tasks u = some t → u ≤ uniProcessId
  table_iff : ∀ u, u ∈ taskTable ↔ ∃ t, tasks u = some t
  table_nodup : taskTable.Nodup
  pid_uniq : ∀ {u u' t t'}, tasks u = some t → tasks u' = some t' → t.pid = t'.pid → u = u'

/-- The blocks of the pools and the ids they take. -/
structure BlockInv (A : PoolAlgo σ ε) (pools : ℕ → Option (XsmPool σ)) (blockid : ℕ → ℕ → Bool) :
    Prop where
  pool_inv : ∀ {h xp}, pools h = some xp → PoolInv A ⟨xp, blockid xp.mntNs⟩
  kept : ∀ {h xp}, pools h = some xp → Kept xp
  used : ∀ {ns i}, blockid ns i = true → ∃ h xp, pools h = some xp ∧ xp.mntNs = ns ∧ i ∈ xp.ids
  disjoint : ∀ {h h' xp xp' i}, pools h = some xp → pools h' = some xp' → xp.mntNs = xp'.mntNs →
    i ∈ xp.ids → i ∈ xp'.ids → h = h'

structure XsmemInv (A : PoolAlgo σ ε) (ext : List ℕ) (s : XsmemState σ) : Prop where
  refs : RefInv ext s.tasks (facesOf s.pools) s.attaching
  names : NameInv (facesOf s.pools) s.xsmemIdr s.xsmemKeyList s.nextXp
  table : TaskInv s.tasks s.taskTable s.uniProcessId
  blocks : BlockInv A s.pools s.blockid

/-! ## Faces -/

section Faces

variable {pools : ℕ → Option (XsmPool σ)} {h : ℕ} {xp xp' : XsmPool σ}

theorem facesOf_eq (hxp : pools h = some xp) : facesOf pools h = some xp.face := by
  simp [facesOf, hxp]

theorem exists_of_facesOf {f : PoolFace} (hf : facesOf pools h = some f) :
    ∃ xp, pools h = some xp ∧ xp.face = f := by
  simpa [facesOf] using hf

theorem facesOf_update (pools : ℕ → Option (XsmPool σ)) (h : ℕ) (x : Option (XsmPool σ)) :
    facesOf (Function.update pools h x) = Function.update (facesOf pools) h (x.map XsmPool.face) := by
  funext k
  by_cases hk : k = h
  · subst hk
    simp [facesOf]
  · simp [facesOf, hk]

theorem SameTasks.face (hs : SameTasks xp xp') : xp'.face = xp.face := by
  have hident := hs.ident
  simp only [XsmPool.ident, Prod.mk.injEq] at hident
  obtain ⟨hid, hrefcnt, hpid, -, hns, hkey⟩ := hident
  simp only [XsmPool.face, hid, hrefcnt, hpid, hns, hkey, hs.members]

end Faces

/-! ## Blocks of all pools -/

theorem PoolInv.rebase {xp : XsmPool σ} {bits bits' : ℕ → Bool} (hinv : PoolInv A ⟨xp, bits⟩)
    (htaken : ∀ i ∈ xp.ids, bits' i = true) : PoolInv A ⟨xp, bits'⟩ :=
  ⟨hinv.sorted, hinv.live, hinv.linked, fun _ hb => htaken _ (List.mem_map_of_mem hb),
    hinv.alloc_eq, hinv.real_eq⟩

section Blocks

variable {pools : ℕ → Option (XsmPool σ)} {blockid : ℕ → ℕ → Bool} {h : ℕ} {xp : XsmPool σ}
  (hinv : BlockInv A pools blockid)

include hinv

/-- The pool at `h` is written and its ids in the bitmap with it. -/
theorem BlockInv.write (hxp : pools h = some xp) {v : PoolView σ} (hns : v.xp.mntNs = xp.mntNs)
    (hv : PoolInv A v) (hkept : Kept v.xp) (hids : IdStep ⟨xp, blockid xp.mntNs⟩ v) :
    BlockInv A (Function.update pools h (some v.xp))
      (Function.update blockid v.xp.mntNs v.blockid) := by
  have hother : ∀ {k xp'}, k ≠ h → pools k = some xp' → xp'.mntNs = xp.mntNs →
      ∀ i ∈ xp'.ids, v.blockid i = true ∧ i ∉ v.xp.ids := by
    intro k xp' hk hxp' hns' i hi
    have hnot : i ∉ xp.ids := fun hmem => hk (hinv.disjoint hxp' hxp hns' hi hmem)
    have htaken := hns' ▸ (hinv.pool_inv hxp').taken_ids hi
    refine ⟨(hids.bits i).mpr (.inr ⟨htaken, hnot⟩), fun hmem => ?_⟩
    rcases hids.fresh i hmem with hold | hfree
    · exact hnot hold
    · exact absurd (htaken.symm.trans hfree) (by simp)
  constructor
  · intro k xp' hxp'
    by_cases hk : k = h
    · subst hk
      rw [Function.update_self, Option.some.injEq] at hxp'
      subst hxp'
      rw [Function.update_self]
      exact hv
    · rw [Function.update_of_ne hk] at hxp'
      by_cases hns' : xp'.mntNs = v.xp.mntNs
      · rw [hns', Function.update_self]
        exact (hinv.pool_inv hxp').rebase fun i hi =>
          (hother hk hxp' (hns'.trans hns) i hi).1
      · rw [Function.update_of_ne hns']
        exact hinv.pool_inv hxp'
  · intro k xp' hxp'
    by_cases hk : k = h
    · subst hk
      rw [Function.update_self, Option.some.injEq] at hxp'
      exact hxp' ▸ hkept
    · rw [Function.update_of_ne hk] at hxp'
      exact hinv.kept hxp'
  · intro ns i hi
    by_cases hns' : ns = v.xp.mntNs
    · subst hns'
      rw [Function.update_self] at hi
      rcases (hids.bits i).mp hi with hmem | ⟨htaken, hnot⟩
      · exact ⟨h, v.xp, Function.update_self .., rfl, hmem⟩
      · obtain ⟨k, xp', hxp', hk, hmem⟩ := hinv.used htaken
        have hkh : k ≠ h := by
          rintro rfl
          obtain rfl := Option.some.inj (hxp.symm.trans hxp')
          exact hnot hmem
        exact ⟨k, xp', by rwa [Function.update_of_ne hkh], hk.trans hns.symm, hmem⟩
    · rw [Function.update_of_ne hns'] at hi
      obtain ⟨k, xp', hxp', rfl, hmem⟩ := hinv.used hi
      have hkh : k ≠ h := by
        rintro rfl
        obtain rfl := Option.some.inj (hxp.symm.trans hxp')
        exact hns' hns.symm
      exact ⟨k, xp', by rwa [Function.update_of_ne hkh], rfl, hmem⟩
  · intro k k' xp' xp'' i hk hk' hns' hi hi'
    by_cases hkh : k = h <;> by_cases hkh' : k' = h
    · exact hkh.trans hkh'.symm
    · subst hkh
      rw [Function.update_self, Option.some.injEq] at hk
      rw [Function.update_of_ne hkh'] at hk'
      subst hk
      exact absurd hi (hother hkh' hk' (hns'.symm.trans hns) i hi').2
    · subst hkh'
      rw [Function.update_self, Option.some.injEq] at hk'
      rw [Function.update_of_ne hkh] at hk
      subst hk'
      exact absurd hi' (hother hkh hk (hns'.trans hns) i hi).2
    · rw [Function.update_of_ne hkh] at hk
      rw [Function.update_of_ne hkh'] at hk'
      exact hinv.disjoint hk hk' hns' hi hi'

/-- The pool at `h` is deleted and its ids are put back. -/
theorem BlockInv.delete (hxp : pools h = some xp) {bits : ℕ → Bool}
    (hbits : ∀ i, bits i = true ↔ blockid xp.mntNs i = true ∧ i ∉ xp.ids) :
    BlockInv A (Function.update pools h none) (Function.update blockid xp.mntNs bits) := by
  have hlive : ∀ {k xp'}, Function.update pools h none k = some xp' → k ≠ h ∧ pools k = some xp' := by
    intro k xp' hxp'
    have hk : k ≠ h := by
      rintro rfl
      simp at hxp'
    exact ⟨hk, by rwa [Function.update_of_ne hk] at hxp'⟩
  constructor
  · intro k xp' hxp'
    obtain ⟨hk, hxp'⟩ := hlive hxp'
    by_cases hns' : xp'.mntNs = xp.mntNs
    · rw [hns', Function.update_self]
      refine (hinv.pool_inv hxp').rebase fun i hi => (hbits i).mpr ⟨?_, fun hmem => ?_⟩
      · exact hns' ▸ (hinv.pool_inv hxp').taken_ids hi
      · exact hk (hinv.disjoint hxp' hxp hns' hi hmem)
    · rw [Function.update_of_ne hns']
      exact hinv.pool_inv hxp'
  · exact fun hxp' => hinv.kept (hlive hxp').2
  · intro ns i hi
    have hold : blockid ns i = true ∧ (ns = xp.mntNs → i ∉ xp.ids) := by
      by_cases hns' : ns = xp.mntNs
      · subst hns'
        rw [Function.update_self, hbits] at hi
        exact ⟨hi.1, fun _ => hi.2⟩
      · rw [Function.update_of_ne hns'] at hi
        exact ⟨hi, fun heq => absurd heq hns'⟩
    obtain ⟨k, xp', hxp', rfl, hmem⟩ := hinv.used hold.1
    have hkh : k ≠ h := by
      rintro rfl
      obtain rfl := Option.some.inj (hxp.symm.trans hxp')
      exact hold.2 rfl hmem
    exact ⟨k, xp', by rwa [Function.update_of_ne hkh], rfl, hmem⟩
  · intro k k' xp' xp'' i hk hk'
    exact hinv.disjoint (hlive hk).2 (hlive hk').2

/-- A pool without blocks is made. -/
theorem BlockInv.create (hfresh : pools h = none) (hnone : xp.blockRoot = [])
    (hnodes : xp.nodeListHead = []) (hlive : A.Live xp.priv []) (htotal : xp.allocSize = 0)
    (hreal : xp.realAllocSize = 0) : BlockInv A (Function.update pools h (some xp)) blockid := by
  have hids : xp.ids = [] := congrArg (List.map XsmBlock.id) hnone
  have hpool : PoolInv A ⟨xp, blockid xp.mntNs⟩ := by
    constructor
    · simp [hnone]
    · simpa [hnone] using hlive
    · refine ⟨?_, ?_, ?_, ?_, ?_, ?_⟩ <;> simp [hnone, hnodes, Keyed.Uniq]
    · simp [hnone]
    · simp [hnone, htotal]
    · simp [hnone, hreal]
  obtain ⟨h₁, h₂, h₃, h₄⟩ := hinv
  constructor
  · grind [Function.update_apply]
  · intro k xp' hxp'
    by_cases hk : k = h
    · subst hk
      rw [Function.update_self, Option.some.injEq] at hxp'
      simp [Kept, ← hxp', hnone]
    · rw [Function.update_of_ne hk] at hxp'
      exact h₂ hxp'
  · intro ns i hi
    obtain ⟨k, xp', hxp', hns, hmem⟩ := h₃ hi
    have hkh : k ≠ h := by
      rintro rfl
      simp [hfresh] at hxp'
    exact ⟨k, xp', by rwa [Function.update_of_ne hkh], hns, hmem⟩
  · grind [Function.update_apply]

end Blocks

/-! ## Names and tasks -/

section Names

variable {faces : ℕ → Option PoolFace} {idr : ℕ → Option ℕ} {keyList : List ℕ} {nextXp h : ℕ}
  {f f' : PoolFace}

theorem NameInv.face (hinv : NameInv faces idr keyList nextXp) (hf : faces h = some f)
    (hid : f'.poolId = f.poolId) (hkey : f'.key = f.key) :
    NameInv (Function.update faces h (some f')) idr keyList nextXp := by
  obtain ⟨h₁, h₂, h₃, h₄, h₅⟩ := hinv
  constructor <;> grind [Function.update_apply]

theorem NameInv.delete (hinv : NameInv faces idr keyList nextXp) (hf : faces h = some f) :
    NameInv (Function.update faces h none) (Function.update idr f.poolId none)
      (keyList.erase h) nextXp := by
  have hmem : ∀ k, k ∈ keyList.erase h ↔ k ∈ keyList ∧ k ≠ h := by
    intro k
    rw [hinv.key_nodup.mem_erase_iff, and_comm]
  have hnodup := hinv.key_nodup.erase h
  have hsole : ∀ {k g}, faces k = some g → g.poolId = f.poolId → k = h := by
    intro k g hg hid
    have hk := (hinv.idr_iff f.poolId k).mpr ⟨g, hg, hid⟩
    exact Option.some.inj (hk.symm.trans ((hinv.idr_iff f.poolId h).mpr ⟨f, hf, rfl⟩))
  obtain ⟨h₁, h₂, h₃, h₄, h₅⟩ := hinv
  constructor <;> grind [Function.update_apply]

theorem NameInv.create (hinv : NameInv faces idr keyList nextXp) (hid : idr f.poolId = none)
    (hkey : ∀ {h f'}, faces h = some f' → f'.key ≠ f.key) :
    NameInv (Function.update faces nextXp (some f)) (Function.update idr f.poolId (some nextXp))
      (nextXp :: keyList) (nextXp + 1) := by
  have hdead : ∀ {g}, faces nextXp ≠ some g := fun hg => (hinv.face_lt hg).false
  obtain ⟨h₁, h₂, h₃, h₄, h₅⟩ := hinv
  constructor <;> grind [Function.update_apply]

variable {tasks : ℕ → Option XsmTask} {taskTable : List ℕ} {uniProcessId u : ℕ} {t t' : XsmTask}

theorem TaskInv.write (hinv : TaskInv tasks taskTable uniProcessId) (ht : tasks u = some t)
    (hpid : t'.pid = t.pid) :
    TaskInv (Function.update tasks u (some t')) taskTable uniProcessId := by
  obtain ⟨h₁, h₂, h₃, h₄⟩ := hinv
  constructor <;> grind [Function.update_apply]

theorem TaskInv.open (hinv : TaskInv tasks taskTable uniProcessId)
    (hpid : ∀ {u t}, tasks u = some t → t.pid ≠ t'.pid) :
    TaskInv (Function.update tasks (uniProcessId + 1) (some t')) ((uniProcessId + 1) :: taskTable)
      (uniProcessId + 1) := by
  have hdead : ∀ {t}, tasks (uniProcessId + 1) ≠ some t := fun ht => by
    have := hinv.task_le ht
    omega
  obtain ⟨h₁, h₂, h₃, h₄⟩ := hinv
  constructor <;> grind [Function.update_apply]

theorem TaskInv.close (hinv : TaskInv tasks taskTable uniProcessId) :
    TaskInv (Function.update tasks u none) (taskTable.erase u) uniProcessId := by
  have hmem : ∀ k, k ∈ taskTable.erase u ↔ k ∈ taskTable ∧ k ≠ u := by
    intro k
    rw [hinv.table_nodup.mem_erase_iff, and_comm]
  have hnodup := hinv.table_nodup.erase u
  obtain ⟨h₁, h₂, h₃, h₄⟩ := hinv
  constructor <;> grind [Function.update_apply]

end Names

/-! ## The steps of a call -/

/-- The names of a pool, which no operation changes. -/
structure SameNames (xp xp' : XsmPool σ) : Prop where
  poolId : xp'.poolId = xp.poolId
  key : xp'.key = xp.key
  mntNs : xp'.mntNs = xp.mntNs
  createPid : xp'.createPid = xp.createPid

section Call

variable {s : XsmemState σ} {ext ext' : List ℕ} {h : ℕ} {xp : XsmPool σ} (hinv : XsmemInv A ext s)

theorem XsmemState.setPool_eq_setView (s : XsmemState σ) (h : ℕ) (xp : XsmPool σ) :
    s.setPool h xp = s.setView h (s.view xp) := by
  simp [setPool, setView, view, Function.update_eq_self]

include hinv

/-- A pool is written, with the references that go with it. -/
theorem XsmemInv.write (hxp : s.pools h = some xp) {v : PoolView σ}
    (hnames : SameNames xp v.xp) (hv : PoolInv A v) (hkept : Kept v.xp)
    (hids : IdStep (s.view xp) v) {tasks : ℕ → Option XsmTask} {attaching : List AttachWait}
    (hrefs : RefInv ext' tasks (Function.update (facesOf s.pools) h (some v.xp.face)) attaching)
    (htable : TaskInv tasks s.taskTable s.uniProcessId) :
    XsmemInv A ext' { s.setView h v with tasks := tasks, attaching := attaching } := by
  refine ⟨?_, ?_, htable, hinv.blocks.write hxp hnames.mntNs hv hkept hids⟩
  · simpa [XsmemState.setView, facesOf_update] using hrefs
  · have hface : NameInv (Function.update (facesOf s.pools) h (some v.xp.face)) s.xsmemIdr
        s.xsmemKeyList s.nextXp :=
      hinv.names.face (facesOf_eq hxp) hnames.poolId hnames.key
    simpa [XsmemState.setView, facesOf_update] using hface

/-- The blocks of a pool are changed, and nothing else. -/
theorem XsmemInv.setView (hxp : s.pools h = some xp) {v : PoolView σ}
    (hsame : SameTasks xp v.xp) (hv : PoolInv A v) (hkept : Kept v.xp)
    (hids : IdStep (s.view xp) v) : XsmemInv A ext (s.setView h v) := by
  have hface := hsame.face
  have hnames : SameNames xp v.xp :=
    ⟨congrArg PoolFace.poolId hface, congrArg PoolFace.key hface,
      congrArg PoolFace.mntNs hface, congrArg PoolFace.createPid hface⟩
  exact hinv.write hxp hnames hv hkept hids
    (hinv.refs.face (facesOf_eq hxp) (congrArg PoolFace.refcnt hface)
      (congrArg PoolFace.members hface)) hinv.table

/-- A pool is written without a change to its blocks. -/
theorem XsmemInv.setPool (hxp : s.pools h = some xp) (xp' : XsmPool σ) (hnames : SameNames xp xp')
    (hblocks : xp'.blockRoot = xp.blockRoot)
    (hv : PoolInv A (s.view xp) → PoolInv A (s.view xp'))
    {tasks : ℕ → Option XsmTask} {attaching : List AttachWait}
    (hrefs : RefInv ext' tasks (Function.update (facesOf s.pools) h (some xp'.face)) attaching)
    (htable : TaskInv tasks s.taskTable s.uniProcessId) :
    XsmemInv A ext' { s.setPool h xp' with tasks := tasks, attaching := attaching } := by
  have hpool := hinv.blocks.pool_inv hxp
  rw [XsmemState.setPool_eq_setView]
  refine hinv.write hxp (v := s.view xp') hnames (hv hpool) ?_ ?_ hrefs htable
  · have hkept := hinv.blocks.kept hxp
    rwa [Kept, ← hblocks] at hkept
  · refine hpool.idStep_of_same (fun i => ?_) ?_
    · simp [XsmemState.view, XsmPool.ids, hblocks]
    · simp [XsmemState.view, hnames.mntNs]

end Call

end OpiaiKernel.Xsmem
