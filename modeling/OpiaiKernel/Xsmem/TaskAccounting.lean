import OpiaiKernel.Xsmem.BlockFate

/-!
# The totals of a task in a pool

A node adds a block to its totals when its task allocates the block and takes
it off when it drops its hold on a block that its own process allocated.  The
totals are the sums over such blocks as long as a process allocates only
through its own task and takes no new hold on a block of its own.
-/

namespace OpiaiKernel.Xsmem

open Keyed

variable {σ ε : Type} {A : PoolAlgo σ ε} {v v' : PoolView σ} {n n' : TaskPoolNode} {exit : Bool}
  {ev : BlockEvent}

/-! ## Sums over the own blocks -/

/-- The sum of `f` over the blocks that the process `pid` allocated and the
task `uid` holds. -/
def ownSum (f : XsmBlock → ℕ) (pid uid : ℕ) (bs : List XsmBlock) : ℕ :=
  ((bs.filter fun b => b.pid = pid ∧ b.HeldBy uid).map f).sum

section Sum

variable {f : XsmBlock → ℕ} {pid uid : ℕ} {b : XsmBlock} {bs bs' : List XsmBlock}

theorem ownSum_perm (hp : bs.Perm bs') : ownSum f pid uid bs = ownSum f pid uid bs' :=
  ((hp.filter _).map f).sum_eq

theorem ownSum_cons_of_own (hown : b.pid = pid ∧ b.HeldBy uid) :
    ownSum f pid uid (b :: bs) = f b + ownSum f pid uid bs := by
  rw [ownSum, List.filter_cons_of_pos (by simpa using hown), List.map_cons, List.sum_cons]
  rfl

theorem ownSum_cons_of_not (hnot : ¬ (b.pid = pid ∧ b.HeldBy uid)) :
    ownSum f pid uid (b :: bs) = ownSum f pid uid bs := by
  rw [ownSum, List.filter_cons_of_neg (by simpa using hnot)]
  rfl

theorem ownSum_le (f : XsmBlock → ℕ) (pid uid : ℕ) (bs : List XsmBlock) :
    ownSum f pid uid bs ≤ (bs.map f).sum :=
  (List.filter_sublist.map f).sum_le_sum fun _ _ => Nat.zero_le _

theorem le_ownSum (hb : b ∈ bs) (hown : b.pid = pid ∧ b.HeldBy uid) :
    f b ≤ ownSum f pid uid bs :=
  List.single_le_sum (fun _ _ => Nat.zero_le _) _
    (List.mem_map_of_mem (List.mem_filter.mpr ⟨hb, by simpa using hown⟩))

end Sum

/-- The totals of the node are the sums over its own blocks. -/
def StatOk (bs : List XsmBlock) (n : TaskPoolNode) : Prop :=
  n.stat = (ownSum XsmBlock.allocSize n.pid n.task bs, ownSum XsmBlock.realSize n.pid n.task bs)

/-! ## The other nodes -/

theorem Effect.mem_of_ne (e : Effect A exit v v' n n' ev) {m : TaskPoolNode}
    (hm : m ∈ v'.xp.nodeListHead) (hne : m.task ≠ n.task) : m ∈ v.xp.nodeListHead := by
  obtain ⟨_, _, hedit⟩ := e.exists_edit
  obtain ⟨N, hN, hN'⟩ := hedit.nodes
  rcases hN'.mem_iff.mp hm with rfl | hm
  · exact absurd hedit.same.1 hne
  · exact hN.mem_iff.mpr (.inr hm)

/-- The own blocks of the other tasks stay. -/
theorem Effect.ownSum_of_ne (e : Effect A exit v v' n n' ev) {f : XsmBlock → ℕ}
    (hf : ∀ b r l, f { b with refcnt := r, taskBlkHead := l } = f b) (pid : ℕ) {uid : ℕ}
    (hne : uid ≠ n.task) :
    ownSum f pid uid v'.xp.blockRoot = ownSum f pid uid v.xp.blockRoot := by
  cases ev with
  | alloc b =>
      obtain ⟨R, hR, hR'⟩ := e.edit.blocks
      rw [ownSum_perm hR, ownSum_perm hR']
      apply ownSum_cons_of_not
      rintro ⟨-, t, ht, htask⟩
      rw [e.hold.1, List.mem_singleton] at ht
      subst ht
      exact hne htask.symm
  | rehold b b' t t' =>
      obtain ⟨R, hR, hR'⟩ := e.edit.blocks
      rw [ownSum_perm hR, ownSum_perm hR']
      have hheld := e.rehold.heldBy hne
      have hpid : b'.pid = b.pid := by rw [e.rehold.same]
      have hsize : f b' = f b := by
        rw [e.rehold.same]
        exact hf b _ _
      by_cases hown : b.pid = pid ∧ b.HeldBy uid
      · have hown' : b'.pid = pid ∧ b'.HeldBy uid := ⟨hpid.trans hown.1, hheld.mpr hown.2⟩
        simp only [List.singleton_append, ownSum_cons_of_own hown, ownSum_cons_of_own hown', hsize]
      · have hnot : ¬ (b'.pid = pid ∧ b'.HeldBy uid) := by rwa [hpid, hheld]
        simp only [List.singleton_append, ownSum_cons_of_not hown, ownSum_cons_of_not hnot]
  | recycle b t =>
      obtain ⟨R, hR, hR'⟩ := e.edit.blocks
      rw [ownSum_perm hR, ownSum_perm hR']
      apply Eq.symm
      apply ownSum_cons_of_not
      rintro ⟨-, x, hx, hxu⟩
      rw [e.hold.1, List.mem_singleton] at hx
      subst hx
      exact hne (hxu.symm.trans e.hold.2)

theorem Effect.statOk_of_ne (e : Effect A exit v v' n n' ev) {m : TaskPoolNode}
    (hne : m.task ≠ n.task) (hok : StatOk v.xp.blockRoot m) : StatOk v'.xp.blockRoot m := by
  rw [StatOk, e.ownSum_of_ne (fun _ _ _ => rfl) _ hne, e.ownSum_of_ne (fun _ _ _ => rfl) _ hne]
  exact hok

/-- A task that leaves changes nothing for the others. -/
theorem Leaves.statOk_of_ne (h : Leaves A v n v' n') {m : TaskPoolNode}
    (hm : m ∈ v'.xp.nodeListHead) (hne : m.task ≠ n.task)
    (hok : ∀ m ∈ v.xp.nodeListHead, m.task ≠ n.task → StatOk v.xp.blockRoot m) :
    StatOk v'.xp.blockRoot m := by
  induction h with
  | nil v n => exact hok m hm hne
  | cons e _ _ ih =>
      refine ih hm (e.task_eq ▸ hne) fun k hk hkne => ?_
      rw [e.task_eq] at hkne
      exact e.statOk_of_ne hkne (hok k (e.mem_of_ne hk hkne) hkne)

/-! ## The acting node -/

/-- What keeps the totals: a block is allocated for the process of the node, no
new hold is taken on a block of that process, and a hold that is dropped was
there. -/
def StatSafe (n : TaskPoolNode) : BlockEvent → Prop
  | .alloc b => b.pid = n.pid
  | .rehold b _ t t' => t.isSome ∨ t'.isSome ∧ b.pid ≠ n.pid
  | .recycle _ _ => True

theorem statDropped_eq {b : XsmBlock} {a c : ℕ} (hok : n.stat =
      ((if b.pid = n.pid then b.allocSize else 0) + a,
        (if b.pid = n.pid then b.realSize else 0) + c))
    (hlt : n.allocSize < 2 ^ 64 ∧ n.realAllocSize < 2 ^ 64) : statDropped n b = (a, c) := by
  obtain ⟨halloc, hreal⟩ := Prod.mk.inj hok
  unfold statDropped
  by_cases hpid : b.pid = n.pid
  · rw [if_pos hpid] at halloc hreal ⊢
    rw [Word.sub_of_le (by omega) hlt.1, Word.sub_of_le (by omega) hlt.2, halloc, hreal]
    simp
  · rw [if_neg hpid, Nat.zero_add] at halloc hreal
    rw [if_neg hpid, halloc, hreal]

theorem PoolInv.stat_lt (h : PoolInv A v) (hok : StatOk v.xp.blockRoot n) :
    n.allocSize < 2 ^ 64 ∧ n.realAllocSize < 2 ^ 64 := by
  obtain ⟨halloc, hreal⟩ := Prod.mk.inj hok
  have htotal := h.total_lt
  have hle := sum_allocSize_le h.linked.block_ok
  have hown := ownSum_le XsmBlock.allocSize n.pid n.task v.xp.blockRoot
  have hown' := ownSum_le XsmBlock.realSize n.pid n.task v.xp.blockRoot
  omega

theorem ownSum_cons_held {f : XsmBlock → ℕ} {pid uid : ℕ} {b : XsmBlock} {bs : List XsmBlock}
    (hheld : b.HeldBy uid) :
    ownSum f pid uid (b :: bs) = (if b.pid = pid then f b else 0) + ownSum f pid uid bs := by
  by_cases hpid : b.pid = pid
  · rw [ownSum_cons_of_own ⟨hpid, hheld⟩, if_pos hpid]
  · rw [ownSum_cons_of_not fun hown => hpid hown.1, if_neg hpid, Nat.zero_add]

theorem Effect.statOk_self (e : Effect A false v v' n n' ev) (h : PoolInv A v)
    (hsafe : StatSafe n ev) (hok : StatOk v.xp.blockRoot n) : StatOk v'.xp.blockRoot n' := by
  have hinv := e.inv h
  have hlt := h.stat_lt hok
  cases ev with
  | alloc b =>
      obtain ⟨R, hR, hR'⟩ := e.edit.blocks
      rw [List.singleton_append] at hR'
      have hpid : b.pid = n.pid := hsafe
      have hheld : b.HeldBy n.task := ⟨⟨n.task, 1⟩, by simp [e.hold.1], rfl⟩
      have hsum : ∀ f, ownSum f n.pid n.task v'.xp.blockRoot =
          f b + ownSum f n.pid n.task v.xp.blockRoot := by
        intro f
        rw [ownSum_perm hR', ownSum_perm hR, ownSum_cons_of_own ⟨hpid, hheld⟩]
        rfl
      have htotal := hinv.total_lt
      have hle := sum_allocSize_le hinv.linked.block_ok
      have halloc := ownSum_le XsmBlock.allocSize n.pid n.task v'.xp.blockRoot
      have hreal := ownSum_le XsmBlock.realSize n.pid n.task v'.xp.blockRoot
      obtain ⟨hn, hn'⟩ := Prod.mk.inj hok
      rw [hsum] at halloc hreal
      rw [StatOk, e.edit.same.1, e.edit.same.2, hsum, hsum, e.stat, hn, hn',
        Word.add_of_lt (by omega), Word.add_of_lt (by omega), Nat.add_comm, Nat.add_comm b.realSize]
  | rehold b b' t t' =>
      obtain ⟨R, hR, hR'⟩ := e.edit.blocks
      rw [List.singleton_append] at hR hR'
      have hpid : b'.pid = b.pid := by rw [e.rehold.same]
      have hstat := e.stat
      rw [StatOk, e.edit.same.1, e.edit.same.2, ownSum_perm hR', ownSum_perm hR', hstat]
      rw [StatOk, ownSum_perm hR, ownSum_perm hR] at hok
      cases ht' : t' with
      | none =>
          have hnot : ¬ b'.HeldBy n.task := by
            rw [e.rehold.heldBy_self, ht']
            simp
          have hheld : b.HeldBy n.task := by
            rcases hsafe with ht | ⟨ht, -⟩
            · obtain ⟨x, hx⟩ := Option.isSome_iff_exists.mp ht
              obtain ⟨H, hH, -⟩ := e.rehold.holders
              exact ⟨x, hH.mem_iff.mpr (by simp [hx]), e.rehold.before x hx⟩
            · simp [ht'] at ht
          rw [ownSum_cons_of_not fun hown => hnot hown.2, ownSum_cons_of_not fun hown => hnot hown.2]
          rw [ownSum_cons_held hheld, ownSum_cons_held hheld] at hok
          simpa using statDropped_eq hok hlt
      | some x =>
          have hheld' : b'.HeldBy n.task := e.rehold.heldBy_self.mpr (by simp [ht'])
          have hsame : ∀ f : XsmBlock → ℕ, f b' = f b →
              ownSum f n.pid n.task (b' :: R) = ownSum f n.pid n.task (b :: R) := by
            intro f hf
            by_cases hown : b.pid = n.pid ∧ b.HeldBy n.task
            · rw [ownSum_cons_of_own hown, ownSum_cons_of_own ⟨hpid.trans hown.1, hheld'⟩, hf]
            · have hne : b.pid ≠ n.pid := by
                rcases hsafe with ht | ⟨-, hne⟩
                · intro heq
                  obtain ⟨y, hy⟩ := Option.isSome_iff_exists.mp ht
                  obtain ⟨H, hH, -⟩ := e.rehold.holders
                  exact hown ⟨heq, y, hH.mem_iff.mpr (by simp [hy]), e.rehold.before y hy⟩
                · exact hne
              rw [ownSum_cons_of_not hown, ownSum_cons_of_not fun hown' => hne (hpid ▸ hown'.1)]
          rw [hsame _ (by rw [e.rehold.same]), hsame _ (by rw [e.rehold.same])]
          simpa using hok
  | recycle b t =>
      obtain ⟨R, hR, hR'⟩ := e.edit.blocks
      rw [List.singleton_append] at hR
      rw [List.nil_append] at hR'
      have hheld : b.HeldBy n.task := ⟨t, by simp [e.hold.1], e.hold.2⟩
      have hstat := e.stat
      rw [StatOk, ownSum_perm hR, ownSum_perm hR, ownSum_cons_held hheld,
        ownSum_cons_held hheld] at hok
      rw [StatOk, e.edit.same.1, e.edit.same.2, ownSum_perm hR', ownSum_perm hR', hstat, if_pos rfl]
      exact statDropped_eq hok hlt

theorem Effect.statOk (e : Effect A false v v' n n' ev) (h : PoolInv A v)
    (hn : n ∈ v.xp.nodeListHead) (hsafe : StatSafe n ev)
    (hok : ∀ m ∈ v.xp.nodeListHead, StatOk v.xp.blockRoot m) :
    ∀ m ∈ v'.xp.nodeListHead, StatOk v'.xp.blockRoot m := by
  intro m hm
  obtain ⟨_, _, hedit⟩ := e.exists_edit
  obtain ⟨N, hN, hN'⟩ := hedit.nodes
  rcases hN'.mem_iff.mp hm with rfl | hmN
  · exact e.statOk_self h hsafe (hok n hn)
  · have hne : m.task ≠ n.task := hN.apart m hmN
    exact e.statOk_of_ne hne (hok m (hN.mem_iff.mpr (.inr hmN)))

/-! ## Steps and runs -/

/-- The totals of every node of the pool are right. -/
def PoolStatOk (xp : XsmPool σ) : Prop := ∀ n ∈ xp.nodeListHead, StatOk xp.blockRoot n

theorem PoolStep.statOk {u : ℕ} {P : Allow} {xp' : XsmPool σ} (h : PoolInv A v)
    (hstep : PoolStep A u P v (some xp')) (hsafe : ∀ n ev, P.event n ev → StatSafe n ev)
    (hok : PoolStatOk v.xp) : PoolStatOk xp' := by
  generalize hx : some xp' = x at hstep
  cases hstep with
  | same hroot hnodes =>
      obtain rfl := Option.some.inj hx
      rw [PoolStatOk, hnodes, hroot]
      exact hok
  | join pid attr hroot hnodes hnew =>
      obtain rfl := Option.some.inj hx
      rw [PoolStatOk, hnodes, hroot]
      intro m hm
      rcases List.mem_append.mp hm with hm | hm
      · exact hok m hm
      · obtain rfl := List.mem_singleton.mp hm
        have hnone : ∀ b ∈ v.xp.blockRoot, ¬ b.HeldBy u := by
          rintro b hb ⟨t, ht, htask⟩
          obtain ⟨k, hk, hkt⟩ := h.linked.owner b hb t ht
          exact hnew k hk (hkt.trans htask)
        have hzero : ∀ f, ownSum f pid u v.xp.blockRoot = 0 := by
          intro f
          rw [ownSum, List.filter_eq_nil_iff.mpr]
          · rfl
          · exact fun b hb => by simpa using fun _ => hnone b hb
        simp [StatOk, TaskPoolNode.stat, hzero]
  | event hn hu e hP =>
      obtain rfl := Option.some.inj hx
      exact e.statOk h hn (hsafe _ _ hP) hok
  | leave hn hu hleaves hP =>
      obtain rfl := Option.some.inj hx
      intro m hm
      obtain ⟨hm, hne⟩ := mem_remove.mp hm
      exact hleaves.statOk_of_ne hm (hu ▸ hne) fun k hk _ => hok k hk
  | delete hnodes => simp at hx

theorem Acts.statOk {u : ℕ} {P : Allow} {x y : List ℕ × XsmemState σ}
    (hinv : XsmemInv A x.1 x.2) (hsafe : ∀ n ev, P.event n ev → StatSafe n ev)
    (acts : Acts A u P x y) (hok : ∀ h xp, x.2.pools h = some xp → PoolStatOk xp) :
    ∀ h xp, y.2.pools h = some xp → PoolStatOk xp := by
  induction acts with
  | refl => exact hok
  | @tail y z acts act ih =>
      have hinv₁ := Acts.inv hinv acts
      intro h xp' hxp'
      cases hxp : y.2.pools h with
      | none =>
          have hnodes := (act.new_pool hinv₁ hxp hxp').2
          simp [PoolStatOk, hnodes]
      | some xp =>
          have hstep := act.poolStep hinv₁ hxp
          rw [hxp'] at hstep
          exact hstep.statOk (hinv₁.blocks.pool_inv hxp) hsafe (ih h xp hxp)

/-- The step neither allocates a block for another process nor takes a new hold
on a block that its own process allocated. -/
def KeepsOwn (A : PoolAlgo σ ε) (s : XsmemState σ) (op : XsmemOp ε) : Prop :=
  ¬ op.AllocatesForeign A s ∧ ¬ op.GetsAnew s

theorem KeepsOwn.statSafe {s : XsmemState σ} {op : XsmemOp ε} (hkeeps : KeepsOwn A s op)
    {n : TaskPoolNode} {ev : BlockEvent} (hP : (op.allowed A s).event n ev) : StatSafe n ev := by
  cases op with
  | call uid call env =>
      cases call with
      | blockAlloc tgid poolId size flag kmalloc e =>
          obtain ⟨b, rfl, hforeign⟩ := hP
          by_contra hne
          exact hkeeps.1 (hforeign hne)
      | blockFree poolId offset =>
          cases ev with
          | alloc b => exact hP.elim
          | rehold b b' t t' => exact .inl hP
          | recycle b t => trivial
      | blockGet offset kmalloc =>
          obtain ⟨b, b', t, t', rfl, hanew⟩ := hP
          cases t with
          | none => exact .inr ⟨rfl, fun hpid => hkeeps.2 (hanew rfl hpid)⟩
          | some t => exact .inl rfl
      | _ => exact hP.elim
  | _ => exact hP.elim

/-- The totals of every node are the sums over the blocks that its process
allocated and its task holds, so that taking such a block off does not
underflow. -/
structure TaskAccounts (s : XsmemState σ) : Prop where
  alloc_eq : ∀ h xp, s.pools h = some xp → ∀ n ∈ xp.nodeListHead,
    n.allocSize =
      ((xp.blockRoot.filter fun b => b.pid = n.pid ∧ b.HeldBy n.task).map XsmBlock.allocSize).sum
  real_eq : ∀ h xp, s.pools h = some xp → ∀ n ∈ xp.nodeListHead,
    n.realAllocSize =
      ((xp.blockRoot.filter fun b => b.pid = n.pid ∧ b.HeldBy n.task).map XsmBlock.realSize).sum
  covered : ∀ h xp, s.pools h = some xp → ∀ n ∈ xp.nodeListHead, ∀ b ∈ xp.blockRoot,
    b.pid = n.pid → b.HeldBy n.task → b.allocSize ≤ n.allocSize ∧ b.realSize ≤ n.realAllocSize

theorem xsmem_task_accounts_of_own {s : XsmemState σ}
    (hs : (xsmemMachine A).ReachIf (KeepsOwn A) s) : TaskAccounts s := by
  have hok : ∀ h xp, s.pools h = some xp → PoolStatOk xp := by
    induction hs with
    | start hinit =>
        obtain rfl := hinit
        intro h xp hxp
        simp [xsmemInit] at hxp
    | next op hs hkeeps hstep ih =>
        have hinv := xsmem_inv hs.reach
        exact (xsmemStep_acts hinv hstep).statOk hinv (fun _ _ => hkeeps.statSafe) ih
  have halloc : ∀ h xp, s.pools h = some xp → ∀ n ∈ xp.nodeListHead,
      n.allocSize = ownSum XsmBlock.allocSize n.pid n.task xp.blockRoot :=
    fun h xp hxp n hn => (Prod.mk.inj (hok h xp hxp n hn)).1
  have hreal : ∀ h xp, s.pools h = some xp → ∀ n ∈ xp.nodeListHead,
      n.realAllocSize = ownSum XsmBlock.realSize n.pid n.task xp.blockRoot :=
    fun h xp hxp n hn => (Prod.mk.inj (hok h xp hxp n hn)).2
  refine ⟨halloc, hreal, fun h xp hxp n hn b hb hpid hheld => ⟨?_, ?_⟩⟩
  · rw [halloc h xp hxp n hn]
    exact le_ownSum hb ⟨hpid, hheld⟩
  · rw [hreal h xp hxp n hn]
    exact le_ownSum hb ⟨hpid, hheld⟩

/-- The process 10 registers a pool and is attached to it. -/
def soloOps : List (XsmemOp AugTree.Rotations) :=
  [.open 10 true, .call 1 (.register 10 0 "a" 8192 true) fun _ _ => [],
    .call 1 (.taskAdd 0 (.ok 10) ⟨true, true, true, true, 0⟩ true) fun _ _ => [],
    .call 1 (.attach 10 0 0 (.ok ()) true) fun _ _ => []]

def soloRun : XsmemState VmaCtrl := (xsmemMachine (vmaAlgo page4K)).final xsmemInit soloOps

theorem xsmem_task_accounts_of_own_solo :
    TaskAccounts ((xsmemMachine (vmaAlgo page4K)).final soloRun
      [.call 1 (.blockAlloc 10 0 4096 0 true []) fun _ _ => []]) := by
  refine xsmem_task_accounts_of_own (A := vmaAlgo page4K) (Machine.ReachIf.final (s := soloRun)
    (Machine.ReachIf.final (s := xsmemInit) (.start rfl) ?_ (by decide +kernel))
    ⟨⟨?_, fun hget => hget⟩, fun _ _ => trivial⟩ (by decide +kernel))
  · have hquiet : ¬ False ∧ ¬ False := ⟨id, id⟩
    exact ⟨hquiet, fun _ _ => ⟨hquiet, fun _ _ => ⟨hquiet, fun _ _ => ⟨hquiet, fun _ _ => trivial⟩⟩⟩⟩
  · rintro ⟨h, xp, n, hid, hxp, hn, -, hne, -⟩
    have hh : soloRun.xsmemIdr 0 = some 0 := by decide +kernel
    obtain rfl := Option.some.inj (hh.symm.trans hid)
    have hpid : ∀ xp ∈ soloRun.pools 0, ∀ n ∈ xp.nodeListHead, n.pid = 10 := by decide +kernel
    exact hne (hpid xp hxp n hn).symm

/-- The process 10 frees a block that the process 11 keeps, and gets it again:
its node holds an own block and counts nothing. -/
def againOps : List (XsmemOp AugTree.Rotations) :=
  shareOps ++ [.call 1 (.blockAlloc 10 0 4096 0 true []) fun _ _ => [],
    .call 2 (.blockGet 0 true) fun _ _ => [], .call 1 (.blockFree 0 0) fun _ _ => [],
    .call 1 (.blockGet 0 true) fun _ _ => []]

def againRun : XsmemState VmaCtrl := (xsmemMachine (vmaAlgo page4K)).final xsmemInit againOps

/-- The next free then underflows. -/
theorem xsmem_task_accounts_fails_again :
    (xsmemMachine (vmaAlgo page4K)).Reach againRun ∧ ¬ TaskAccounts againRun ∧
      ∃ t ∈ xsmemStep (vmaAlgo page4K) againRun (.call 1 (.blockFree 0 0) fun _ _ => []),
        ∃ xp ∈ t.pools 0, ∃ n ∈ xp.nodeListHead, n.task = 1 ∧ n.allocSize = 2 ^ 64 - 4096 := by
  refine ⟨Machine.Reach.final (s := xsmemInit) (.start rfl) (by decide +kernel),
    fun hacc => ?_, by decide +kernel⟩
  have hsome : againRun.pools 0 ≠ none := by decide +kernel
  obtain ⟨xp, hxp⟩ := Option.ne_none_iff_exists'.mp hsome
  have hbad : ∀ xp ∈ againRun.pools 0, ∃ n ∈ xp.nodeListHead, n.allocSize ≠
      ((xp.blockRoot.filter fun b => b.pid = n.pid ∧ b.HeldBy n.task).map
        XsmBlock.allocSize).sum := by
    decide +kernel
  obtain ⟨n, hn, hne⟩ := hbad xp hxp
  exact hne (hacc.alloc_eq 0 xp hxp n hn)

end OpiaiKernel.Xsmem
