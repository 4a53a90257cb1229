import OpiaiKernel.Xsmem.PoolEffect

/-!
# What becomes of the blocks of a pool

The invariant of a pool, the ids that its blocks take from the bitmap and the
fate of each block, through an event, through the events of a task that leaves
and through the deletion of the pool.
-/

namespace OpiaiKernel.Xsmem

open Keyed Span

variable {σ ε : Type} {A : PoolAlgo σ ε} {v v' v'' : PoolView σ} {n n' : TaskPoolNode}
  {exit : Bool} {ev : BlockEvent}

theorem Effect.exists_edit (e : Effect A exit v v' n n' ev) :
    ∃ bs bs', Edit v.xp v'.xp n n' bs bs' := by
  cases ev with
  | alloc b => exact ⟨_, _, e.edit⟩
  | rehold b b' t t' => exact ⟨_, _, e.edit⟩
  | recycle b t => exact ⟨_, _, e.edit⟩

/-- The events leave the identity of the pool and its tasks alone. -/
structure SameTasks (xp xp' : XsmPool σ) : Prop where
  ident : xp'.ident = xp.ident
  members : xp'.members = xp.members

theorem SameTasks.refl (xp : XsmPool σ) : SameTasks xp xp := ⟨rfl, rfl⟩

theorem SameTasks.trans {xp xp' xp'' : XsmPool σ} (h : SameTasks xp xp')
    (h' : SameTasks xp' xp'') : SameTasks xp xp'' :=
  ⟨h'.ident.trans h.ident, h'.members.trans h.members⟩

theorem SameTasks.mntNs {xp xp' : XsmPool σ} (h : SameTasks xp xp') : xp'.mntNs = xp.mntNs := by
  have hident := h.ident
  simp only [XsmPool.ident, Prod.mk.injEq] at hident
  exact hident.2.2.2.2.1

theorem Effect.sameTasks (e : Effect A exit v v' n n' ev) : SameTasks v.xp v'.xp := by
  obtain ⟨_, _, hedit⟩ := e.exists_edit
  exact ⟨hedit.ident, hedit.members⟩

theorem Idle.sameTasks (e : Idle A v v') : SameTasks v.xp v'.xp := by
  rw [e.xp]
  exact ⟨rfl, rfl⟩

/-! ## Ids -/

def XsmPool.ids (xp : XsmPool σ) : List ℕ := xp.blockRoot.map XsmBlock.id

/-- The bitmap is changed by what the pool takes and gives back. -/
structure IdStep (v v' : PoolView σ) : Prop where
  bits : ∀ i, v'.blockid i = true ↔ i ∈ v'.xp.ids ∨ v.blockid i = true ∧ i ∉ v.xp.ids
  fresh : ∀ i ∈ v'.xp.ids, i ∈ v.xp.ids ∨ v.blockid i = false

theorem PoolInv.taken_ids (h : PoolInv A v) {i : ℕ} (hi : i ∈ v.xp.ids) : v.blockid i = true := by
  obtain ⟨b, hb, rfl⟩ := List.mem_map.mp hi
  exact h.taken b hb

theorem PoolInv.idStep_of_same (h : PoolInv A v) (hids : ∀ i, i ∈ v'.xp.ids ↔ i ∈ v.xp.ids)
    (hbits : v'.blockid = v.blockid) : IdStep v v' := by
  refine ⟨fun i => ?_, fun i hi => .inl ((hids i).mp hi)⟩
  have htaken : i ∈ v.xp.ids → v.blockid i = true := h.taken_ids
  rw [hbits, hids]
  tauto

theorem IdStep.trans (h : IdStep v v') (h' : IdStep v' v'') : IdStep v v'' := by
  refine ⟨fun i => ?_, fun i hi => ?_⟩
  · have hfresh := h.fresh i
    rw [h'.bits, h.bits]
    by_cases hi : v.blockid i = true
    · simp only [hi, Bool.true_eq_false, or_false] at hfresh ⊢
      tauto
    · tauto
  · rcases h'.fresh i hi with hi' | hi'
    · exact h.fresh i hi'
    · have hbits := h.bits i
      rw [hi'] at hbits
      by_cases hv : v.blockid i = true
      · simp only [Bool.false_eq_true, false_iff, hv, true_and, not_or, not_not] at hbits
        exact .inl hbits.2
      · exact .inr (by simpa using hv)

theorem Idle.idStep (e : Idle A v v') (h : PoolInv A v) : IdStep v v' := by
  refine h.idStep_of_same (fun i => ?_) e.blockid
  rw [e.xp]
  rfl

theorem Effect.idStep (e : Effect A exit v v' n n' ev) (h : PoolInv A v) : IdStep v v' := by
  cases ev with
  | alloc b =>
      obtain ⟨R, hR, hR'⟩ := e.edit.blocks
      have hids : ∀ i, i ∈ v'.xp.ids ↔ i = b.id ∨ i ∈ v.xp.ids := by
        intro i
        rw [XsmPool.ids, (hR'.map _).mem_iff, XsmPool.ids, (hR.map _).mem_iff]
        simp
      refine ⟨fun i => ?_, fun i hi => ?_⟩
      · have htaken : i ∈ v.xp.ids → v.blockid i = true := h.taken_ids
        rw [e.blockid, hids, Function.update_apply]
        by_cases hi : i = b.id
        · simp [hi]
        · simp only [hi, if_false, false_or]
          tauto
      · exact ((hids i).mp hi).elim (fun heq => .inr (heq ▸ e.id.1)) .inl
  | rehold b b' t t' =>
      obtain ⟨R, hR, hR'⟩ := e.edit.blocks
      have hid : b'.id = b.id := by rw [e.rehold.same]
      refine h.idStep_of_same (fun i => ?_) e.same.2.1
      rw [XsmPool.ids, (hR'.map _).mem_iff, XsmPool.ids, (hR.map _).mem_iff]
      simp [hid]
  | recycle b t =>
      obtain ⟨R, hR, hR'⟩ := e.edit.blocks
      rw [List.singleton_append] at hR
      rw [List.nil_append] at hR'
      have hids : ∀ i, i ∈ v.xp.ids ↔ i = b.id ∨ i ∈ v'.xp.ids := by
        intro i
        rw [XsmPool.ids, (hR.map _).mem_iff, XsmPool.ids, (hR'.map _).mem_iff]
        simp
      have hnot : b.id ∉ v'.xp.ids := by
        intro hi
        rw [XsmPool.ids, (hR'.map _).mem_iff] at hi
        exact (List.nodup_cons.mp (h.linked.ids.perm hR)).1 hi
      have hlt := (h.linked.block_ok b (hR.mem_iff.mpr (by simp))).id_lt
      refine ⟨fun i => ?_, fun i hi => .inl ((hids i).mpr (.inr hi))⟩
      have htaken : i ∈ v.xp.ids → v.blockid i = true := h.taken_ids
      rw [e.blockid, xsmemBlockidPut, if_pos hlt, Function.update_apply]
      by_cases hi : i = b.id
      · subst hi
        simp [hnot, hids]
      · simp only [hids, hi, if_false, false_or] at htaken ⊢
        tauto

/-! ## Fates -/

/-- The same block, with the same holds of the tasks other than `uid`. -/
structure Stays (uid : ℕ) (b b' : XsmBlock) : Prop where
  same : b' = { b with refcnt := b'.refcnt, taskBlkHead := b'.taskBlkHead }
  others : ∀ t : TaskBlockNode, t.node ≠ uid → (t ∈ b'.taskBlkHead ↔ t ∈ b.taskBlkHead)

/-- The block stays, and its count does not become zero unless its task leaves
a block that is not recycled automatically. -/
def Remains (uid : ℕ) (exit : Bool) (xp' : XsmPool σ) (b : XsmBlock) : Prop :=
  ∃ b' ∈ xp'.blockRoot, Stays uid b b' ∧
    (b'.refcnt = 0 → b.refcnt = 0 ∨ exit = true ∧ ¬ xsmemIsBlkNeedAutoRecycle b)

/-- The block is given back: only the task `uid` held it, and it dropped its
last reference. -/
structure GivenBack (uid : ℕ) (exit : Bool) (xp' : XsmPool σ) (b : XsmBlock) : Prop where
  gone : ∀ b' ∈ xp'.blockRoot, b'.offset ≠ b.offset
  sole : ∀ t ∈ b.taskBlkHead, t.node = uid
  free : exit = false → b.refcnt = 1
  auto : exit = true → xsmemIsBlkNeedAutoRecycle b

def Fate (uid : ℕ) (exit : Bool) (xp' : XsmPool σ) (b : XsmBlock) : Prop :=
  Remains uid exit xp' b ∨ GivenBack uid exit xp' b

theorem Stays.refl (uid : ℕ) (b : XsmBlock) : Stays uid b b := ⟨rfl, fun _ _ => .rfl⟩

theorem Stays.trans {uid : ℕ} {b b' b'' : XsmBlock} (h : Stays uid b b') (h' : Stays uid b' b'') :
    Stays uid b b'' := by
  refine ⟨?_, fun t ht => (h'.others t ht).trans (h.others t ht)⟩
  rw [h'.same, h.same]

theorem fate_of_mem {uid : ℕ} {xp' : XsmPool σ} {b : XsmBlock} (hb : b ∈ xp'.blockRoot) :
    Fate uid exit xp' b :=
  .inl ⟨b, hb, .refl uid b, .inl⟩

theorem Rehold.stays {uid : ℕ} {b b' : XsmBlock} {t t' : Option TaskBlockNode}
    (h : Rehold uid b b' t t') : Stays uid b b' := by
  obtain ⟨H, hb, hb', -⟩ := h.holders
  refine ⟨h.same, fun x hx => ?_⟩
  have ht : x ∉ t.toList := fun hxt => hx (h.before x (by simpa using hxt))
  have ht' : x ∉ t'.toList := fun hxt => hx (h.after x (by simpa using hxt)).1
  rw [hb.mem_iff, hb'.mem_iff]
  simp [ht, ht']

theorem BlockOk.refcnt_eq_zero {b : XsmBlock} (h : BlockOk b) :
    b.refcnt = 0 ↔ b.taskBlkHead = [] := by
  constructor
  · intro hzero
    by_contra hne
    obtain ⟨t, ht⟩ := List.exists_mem_of_ne_nil _ hne
    have hpos := h.pos t ht
    have hle := h.refcnt_le ht
    omega
  · intro hfree
    simp [h.refcnt_eq, XsmBlock.held, hfree]

theorem Effect.fate (e : Effect A exit v v' n n' ev) (h : PoolInv A v) :
    ∀ b ∈ v.xp.blockRoot, Fate n.task exit v'.xp b := by
  have hinv := e.inv h
  intro c hc
  cases ev with
  | alloc b =>
      obtain ⟨R, hR, hR'⟩ := e.edit.blocks
      exact fate_of_mem (hR'.mem_iff.mpr (List.mem_cons_of_mem b (hR.mem_iff.mp hc)))
  | rehold b b' t t' =>
      obtain ⟨R, hR, hR'⟩ := e.edit.blocks
      rw [List.singleton_append] at hR hR'
      rcases List.mem_cons.mp (hR.mem_iff.mp hc) with rfl | hc
      · have hb' : b' ∈ v'.xp.blockRoot := hR'.mem_iff.mpr (by simp)
        refine .inl ⟨b', hb', e.rehold.stays, fun hzero => .inr ?_⟩
        have hfree := (hinv.linked.block_ok b' hb').refcnt_eq_zero.mp hzero
        exact e.kept.resolve_left fun hne => hne hfree
      · exact fate_of_mem (hR'.mem_iff.mpr (List.mem_cons_of_mem b' hc))
  | recycle b t =>
      obtain ⟨R, hR, hR'⟩ := e.edit.blocks
      rw [List.singleton_append] at hR
      rw [List.nil_append] at hR'
      rcases List.mem_cons.mp (hR.mem_iff.mp hc) with rfl | hc
      · have hok := h.linked.block_ok c (hR.mem_iff.mpr (by simp))
        have hrefcnt : c.refcnt = t.refcnt := by
          simp [hok.refcnt_eq, XsmBlock.held, e.hold.1]
        refine .inr ⟨?_, ?_, ?_, e.auto⟩
        · intro d hd
          exact (h.uniq.perm hR).ne_of_tail (hR'.mem_iff.mp hd)
        · simpa [e.hold.1] using e.hold.2
        · exact fun hexit => hrefcnt.trans (e.last hexit)
      · exact fate_of_mem (hR'.mem_iff.mpr hc)

/-- A task that leaves brings no block into the pool. -/
theorem Effect.offsets (e : Effect A exit v v' n n' ev) (hdrop : ∀ b, ev ≠ .alloc b) :
    ∀ b' ∈ v'.xp.blockRoot, ∃ b ∈ v.xp.blockRoot, b.offset = b'.offset := by
  intro c hc
  cases ev with
  | alloc b => exact absurd rfl (hdrop b)
  | rehold b b' t t' =>
      obtain ⟨R, hR, hR'⟩ := e.edit.blocks
      rw [List.singleton_append] at hR hR'
      rcases List.mem_cons.mp (hR'.mem_iff.mp hc) with rfl | hc
      · exact ⟨b, hR.mem_iff.mpr (by simp), by rw [e.rehold.same]⟩
      · exact ⟨c, hR.mem_iff.mpr (List.mem_cons_of_mem b hc), rfl⟩
  | recycle b t =>
      obtain ⟨R, hR, hR'⟩ := e.edit.blocks
      rw [List.singleton_append] at hR
      rw [List.nil_append] at hR'
      exact ⟨c, hR.mem_iff.mpr (List.mem_cons_of_mem b (hR'.mem_iff.mp hc)), rfl⟩

/-! ## A task leaves -/

theorem Stays.needAutoRecycle {uid : ℕ} {b b' : XsmBlock} (h : Stays uid b b') :
    xsmemIsBlkNeedAutoRecycle b' ↔ xsmemIsBlkNeedAutoRecycle b := by
  rw [h.same]
  rfl

theorem Fate.congr {uid : ℕ} {xp xp' : XsmPool σ} {b : XsmBlock}
    (hroot : xp'.blockRoot = xp.blockRoot) (h : Fate uid exit xp b) : Fate uid exit xp' b := by
  rcases h with ⟨b', hb', hstays, hzero⟩ | hback
  · exact .inl ⟨b', hroot ▸ hb', hstays, hzero⟩
  · exact .inr ⟨hroot ▸ hback.gone, hback.sole, hback.free, hback.auto⟩

/-- The fates of a task that leaves follow one another when no block comes. -/
theorem Fate.trans {uid : ℕ} {xp xp' : XsmPool σ} {b : XsmBlock} (h : Fate uid true xp b)
    (hnext : ∀ b' ∈ xp.blockRoot, Fate uid true xp' b')
    (hold : ∀ c ∈ xp'.blockRoot, ∃ b' ∈ xp.blockRoot, b'.offset = c.offset) :
    Fate uid true xp' b := by
  rcases h with ⟨b', hb', hstays, hzero⟩ | hback
  · rcases hnext b' hb' with ⟨b'', hb'', hstays', hzero'⟩ | hback'
    · refine .inl ⟨b'', hb'', hstays.trans hstays', fun hz => ?_⟩
      rw [hstays.needAutoRecycle] at hzero'
      exact (hzero' hz).elim hzero .inr
    · refine .inr ⟨?_, ?_, by simp, fun hexit => hstays.needAutoRecycle.mp (hback'.auto hexit)⟩
      · have hoff : b'.offset = b.offset := by rw [hstays.same]
        exact hoff ▸ hback'.gone
      · intro t ht
        by_contra hne
        exact hne (hback'.sole t ((hstays.others t hne).mpr ht))
  · refine .inr ⟨?_, hback.sole, hback.free, hback.auto⟩
    intro c hc heq
    obtain ⟨b', hb', hoff⟩ := hold c hc
    exact hback.gone b' hb' (hoff.trans heq)

/-- Only the task `uid` can have held a block that is held no more. -/
theorem Fate.sole {uid : ℕ} {xp : XsmPool σ} {b : XsmBlock} (h : Fate uid exit xp b)
    (hnone : ∀ b' ∈ xp.blockRoot, ∀ x ∈ b'.taskBlkHead, x.node = uid) :
    ∀ x ∈ b.taskBlkHead, x.node = uid := by
  intro x hx
  rcases h with ⟨b', hb', hstays, -⟩ | hback
  · by_contra hne
    exact hne (hnone b' hb' x ((hstays.others x hne).mpr hx))
  · exact hback.sole x hx

theorem Effect.task_eq (e : Effect A exit v v' n n' ev) : n'.task = n.task := by
  obtain ⟨_, _, hedit⟩ := e.exists_edit
  exact hedit.same.1

section Leaves

variable (h : Leaves A v n v' n')

include h

theorem Leaves.task_eq : n'.task = n.task := by
  induction h with
  | nil v n => rfl
  | cons e _ _ ih => exact ih.trans e.task_eq

theorem Leaves.sameTasks : SameTasks v.xp v'.xp := by
  induction h with
  | nil v n => exact .refl _
  | cons e _ _ ih => exact e.sameTasks.trans ih

theorem Leaves.inv (hinv : PoolInv A v) : PoolInv A v' := by
  induction h with
  | nil v n => exact hinv
  | cons e _ _ ih => exact ih (e.inv hinv)

theorem Leaves.preserves_kept (hkept : Kept v.xp) : Kept v'.xp := by
  induction h with
  | nil v n => exact hkept
  | cons e _ _ ih => exact ih (e.preserves_kept hkept)

theorem Leaves.mem (hn : n ∈ v.xp.nodeListHead) : n' ∈ v'.xp.nodeListHead := by
  induction h with
  | nil v n => exact hn
  | cons e _ _ ih => exact ih e.mem

theorem Leaves.idStep (hinv : PoolInv A v) : IdStep v v' := by
  induction h with
  | nil v n => exact hinv.idStep_of_same (fun _ => .rfl) rfl
  | cons e _ _ ih => exact (e.idStep hinv).trans (ih (e.inv hinv))

theorem Leaves.offsets : ∀ b' ∈ v'.xp.blockRoot, ∃ b ∈ v.xp.blockRoot, b.offset = b'.offset := by
  induction h with
  | nil v n => exact fun b hb => ⟨b, hb, rfl⟩
  | cons e hdrop _ ih =>
      intro c hc
      obtain ⟨b', hb', hoff'⟩ := ih c hc
      obtain ⟨b, hb, hoff⟩ := e.offsets hdrop b' hb'
      exact ⟨b, hb, hoff.trans hoff'⟩

theorem Leaves.fate (hinv : PoolInv A v) : ∀ b ∈ v.xp.blockRoot, Fate n.task true v'.xp b := by
  induction h with
  | nil v n => exact fun b hb => fate_of_mem hb
  | cons e hdrop rest ih =>
      intro b hb
      refine (e.fate hinv b hb).trans (fun b' hb' => ?_) rest.offsets
      exact e.task_eq ▸ ih (e.inv hinv) b' hb'

end Leaves

/-! ## Nodes come and go -/

theorem poolNodeDel_inv (h : PoolInv A v) (hn : n ∈ v.xp.nodeListHead)
    (hempty : n.taskBlkHead = []) : PoolInv A { v with xp := poolNodeDel v.xp n.task } := by
  have hfoc := h.linked.nodes_uniq.focus hn
  have hl := h.linked
  have hsub : ∀ m ∈ remove TaskPoolNode.task n.task v.xp.nodeListHead, m ∈ v.xp.nodeListHead :=
    fun m hm => (mem_remove.mp hm).1
  refine ⟨h.sorted, h.live, ⟨hl.block_ok, hl.ids, ?_, ?_, ?_, ?_⟩, h.taken, h.alloc_eq, h.real_eq⟩
  · exact hl.nodes_uniq.sublist (List.filter_sublist.map _)
  · exact fun m hm => hl.blks_nodup m (hsub m hm)
  · exact fun m hm => hl.link m (hsub m hm)
  · intro b hb t ht
    obtain ⟨m, hm, hmt⟩ := hl.owner b hb t ht
    refine ⟨m, mem_remove.mpr ⟨hm, fun heq => ?_⟩, hmt⟩
    obtain rfl := hl.nodes_uniq.eq_of_key hm hn heq
    have hmem := (hl.link m hm b.offset).mpr ⟨b, hb, rfl, t, ht, hmt.symm⟩
    simp [hempty] at hmem

theorem poolNodeAdd_inv (h : PoolInv A v) {uid pid : ℕ} {attr : GroupShareAttr}
    (hnew : ∀ m ∈ v.xp.nodeListHead, m.task ≠ uid) :
    PoolInv A { v with xp := poolNodeAdd v.xp uid pid attr } := by
  have hl := h.linked
  set m : TaskPoolNode :=
    { task := uid, pid, attr, allocSize := 0, realAllocSize := 0, taskBlkHead := [] } with hm
  have hmem : ∀ k, k ∈ (poolNodeAdd v.xp uid pid attr).nodeListHead ↔
      k = m ∨ k ∈ v.xp.nodeListHead := fun k =>
    (List.perm_append_singleton m v.xp.nodeListHead).mem_iff.trans List.mem_cons
  refine ⟨h.sorted, h.live, ⟨hl.block_ok, hl.ids, ?_, ?_, ?_, ?_⟩, h.taken, h.alloc_eq, h.real_eq⟩
  · exact (hl.nodes_uniq.cons (a := m) hnew).perm (List.perm_append_singleton m _).symm
  · intro k hk
    rcases (hmem k).mp hk with rfl | hk
    · exact List.nodup_nil
    · exact hl.blks_nodup k hk
  · intro k hk o
    rcases (hmem k).mp hk with rfl | hk
    · simp only [hm, List.not_mem_nil, false_iff]
      rintro ⟨b, hb, -, t, ht, htask⟩
      obtain ⟨k, hk, hkt⟩ := hl.owner b hb t ht
      exact hnew k hk (hkt.trans htask)
    · exact hl.link k hk o
  · intro b hb t ht
    obtain ⟨k, hk, hkt⟩ := hl.owner b hb t ht
    exact ⟨k, (hmem k).mpr (.inr hk), hkt⟩

/-! ## The pool is deleted -/

/-- The blocks that are left are given back, and their ids with them. -/
theorem clearBlockRounds_spec {env : ℕ → ε} {l : List XsmBlock}
    (hlive : A.Live v.xp.priv (l.map XsmBlock.span)) (hid : ∀ b ∈ l, b.id < XSMEM_BLOCK_MAX_NUM) :
    A.Live (l.foldl (clearBlockRound A env) v).xp.priv [] ∧
      ∀ i, (l.foldl (clearBlockRound A env) v).blockid i = true ↔
        v.blockid i = true ∧ i ∉ l.map XsmBlock.id := by
  induction l generalizing v with
  | nil => exact ⟨hlive, by simp⟩
  | cons b l ih =>
      have hfree := A.live_free (e := env b.offset) hlive
      obtain ⟨hlive', hbits⟩ := ih (v := clearBlockRound A env v b) hfree
        fun c hc => hid c (List.mem_cons_of_mem b hc)
      refine ⟨hlive', fun i => ?_⟩
      rw [List.foldl_cons, hbits]
      simp only [clearBlockRound, xsmemBlockidPut, if_pos (hid b (by simp)), List.map_cons,
        List.mem_cons, not_or, Function.update_apply]
      by_cases hi : i = b.id <;> simp [hi]

theorem xsmemClearBlock_spec (h : PoolInv A v) (env : ℕ → ε) :
    A.Live (xsmemClearBlock A env v).xp.priv [] ∧
      ∀ i, (xsmemClearBlock A env v).blockid i = true ↔ v.blockid i = true ∧ i ∉ v.xp.ids :=
  clearBlockRounds_spec h.live fun b hb => (h.linked.block_ok b hb).id_lt

end OpiaiKernel.Xsmem
