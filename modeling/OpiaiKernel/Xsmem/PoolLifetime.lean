import OpiaiKernel.Xsmem.FrameworkSteps

/-!
# The lifetime of pools and the number of pools of a task

A pool lives as long as somebody refers to it.  The counter `pool_num` of a
task is the number of its pools when a task that attaches to a pool which its
process created is the one that has the pool registered.
-/

namespace OpiaiKernel.Xsmem

variable {σ ε : Type} {A : PoolAlgo σ ε} {ext ext' : List ℕ} {s s' : XsmemState σ} {h u : ℕ}
  {P : Allow}

/-! ## Lifetime -/

def Attached (tasks : ℕ → Option XsmTask) (h : ℕ) : Prop :=
  ∃ u t, tasks u = some t ∧ h ∈ t.nodeListHead

/-- No lookup, no task and no blocked attach leads to the pool at `h`. -/
structure Unreferenced (s : XsmemState σ) (h : ℕ) : Prop where
  idr : ∀ id, s.xsmemIdr id ≠ some h
  key : h ∉ s.xsmemKeyList
  attached : ¬ Attached s.tasks h
  registered : ¬ Registered s.tasks h
  waits : ∀ w ∈ s.attaching, w.xp ≠ h

theorem XsmemInv.unreferenced (hinv : XsmemInv A [] s) (hdead : s.pools h = none) :
    Unreferenced s h := by
  have hnone : ∀ f, facesOf s.pools h ≠ some f := by
    intro f hf
    simp [facesOf, hdead] at hf
  refine ⟨?_, ?_, ?_, ?_, ?_⟩
  · intro id hid
    obtain ⟨f, hf, -⟩ := (hinv.names.idr_iff id h).mp hid
    exact hnone f hf
  · intro hkey
    obtain ⟨f, hf⟩ := (hinv.names.key_iff h).mp hkey
    exact hnone f hf
  · rintro ⟨u, t, ht, hmem⟩
    obtain ⟨f, hf, -⟩ := (hinv.refs.node_iff ht h).mp hmem
    exact hnone f hf
  · rintro ⟨u, t, ht, hmem⟩
    obtain ⟨f, hf⟩ := hinv.refs.reg_live ht h hmem
    exact hnone f hf
  · rintro w hw rfl
    obtain ⟨f, hf⟩ := hinv.refs.wait_live w hw
    exact hnone f hf

theorem XsmemInv.refcnt_eq (hinv : XsmemInv A [] s) {xp : XsmPool σ} (hxp : s.pools h = some xp) :
    xp.refcnt = registrations s.tasks h + xp.nodeListHead.length + waits s.attaching h := by
  have htotal := hinv.refs.refcnt_eq (facesOf_eq hxp)
  simpa [XsmPool.face, XsmPool.members] using htotal

theorem XsmemInv.attached_iff (hinv : XsmemInv A [] s) {xp : XsmPool σ}
    (hxp : s.pools h = some xp) : Attached s.tasks h ↔ xp.nodeListHead ≠ [] := by
  constructor
  · rintro ⟨u, t, ht, hmem⟩ hnil
    obtain ⟨f, hf, hu⟩ := (hinv.refs.node_iff ht h).mp hmem
    obtain ⟨xp', hxp', rfl⟩ := exists_of_facesOf hf
    obtain rfl := Option.some.inj (hxp.symm.trans hxp')
    simp [PoolFace.uids, XsmPool.face, XsmPool.members, hnil] at hu
  · intro hne
    obtain ⟨n, hn⟩ := List.exists_mem_of_ne_nil _ hne
    have hmember : (n.task, n.pid, n.attr) ∈ xp.face.members := List.mem_map_of_mem hn
    obtain ⟨t, ht, -⟩ := hinv.refs.member_task (facesOf_eq hxp) _ hmember
    refine ⟨n.task, t, ht, (hinv.refs.node_iff ht h).mpr ⟨_, facesOf_eq hxp, ?_⟩⟩
    exact List.mem_map_of_mem hmember

/-- A pool is there as long as its count is not zero. -/
theorem XsmemInv.dead_iff (hinv : XsmemInv A [] s) :
    s.pools h = none ↔
      ¬ Registered s.tasks h ∧ ¬ Attached s.tasks h ∧ waits s.attaching h = 0 ∨
        s.nextXp ≤ h := by
  constructor
  · intro hdead
    have hun := hinv.unreferenced hdead
    refine .inl ⟨hun.registered, hun.attached, ?_⟩
    simpa [waits, List.countP_eq_zero] using hun.waits
  · intro hcount
    cases hxp : s.pools h with
    | none => rfl
    | some xp =>
        rcases hcount with ⟨hreg, hatt, hwait⟩ | hnext
        · have htotal := hinv.refcnt_eq hxp
          have hpos : 0 < xp.refcnt := hinv.refs.refcnt_pos (facesOf_eq hxp)
          have hnodes : xp.nodeListHead = [] := by
            by_contra hne
            exact hatt ((hinv.attached_iff hxp).mpr hne)
          rw [registrations_of_not hreg, hwait, hnodes] at htotal
          simp at htotal
          omega
        · exact absurd (hinv.names.face_lt (facesOf_eq hxp)) (not_lt.mpr hnext)

theorem update_dead {pools : ℕ → Option (XsmPool σ)} {k : ℕ} {xp : XsmPool σ}
    (hxp : pools h = some xp) (x : Option (XsmPool σ)) (hdead : pools k = none) :
    Function.update pools h x k = none := by
  have hkh : k ≠ h := by
    rintro rfl
    simp [hxp] at hdead
  rwa [Function.update_of_ne hkh]

/-- A dead pool stays dead. -/
theorem Act.dead (act : Act A u P (ext, s) (ext', s')) :
    s.nextXp ≤ s'.nextXp ∧ ∀ h < s.nextXp, s.pools h = none → s'.pools h = none := by
  cases act with
  | get hxp => exact ⟨le_rfl, fun _ _ => update_dead hxp _⟩
  | put hxp => exact ⟨le_rfl, fun _ _ => update_dead hxp _⟩
  | delete hxp => exact ⟨le_rfl, fun _ _ => update_dead hxp _⟩
  | idle hxp => exact ⟨le_rfl, fun _ _ => update_dead hxp _⟩
  | event hxp => exact ⟨le_rfl, fun _ _ => update_dead hxp _⟩
  | leave hxp => exact ⟨le_rfl, fun _ _ => update_dead hxp _⟩
  | adding hxp => exact ⟨le_rfl, fun _ _ => update_dead hxp _⟩
  | join hxp => exact ⟨le_rfl, fun _ _ => update_dead hxp _⟩
  | register =>
      refine ⟨Nat.le_succ _, fun h hlt hdead => ?_⟩
      exact (Function.update_of_ne hlt.ne _ _).trans hdead
  | unregister => exact ⟨le_rfl, fun _ _ hdead => hdead⟩
  | «open» => exact ⟨le_rfl, fun _ _ hdead => hdead⟩
  | close => exact ⟨le_rfl, fun _ _ hdead => hdead⟩
  | block => exact ⟨le_rfl, fun _ _ hdead => hdead⟩
  | unblock => exact ⟨le_rfl, fun _ _ hdead => hdead⟩
  | exitNotify pid =>
      refine ⟨le_rfl, fun h _ hdead => ?_⟩
      simp [taskExitNotify, hdead]

theorem Acts.dead {x y : List ℕ × XsmemState σ} (acts : Acts A u P x y) :
    x.2.nextXp ≤ y.2.nextXp ∧ ∀ h < x.2.nextXp, x.2.pools h = none → y.2.pools h = none := by
  induction acts with
  | refl => exact ⟨le_rfl, fun _ _ hdead => hdead⟩
  | tail _ act ih =>
      obtain ⟨hle, hdead⟩ := act.dead
      exact ⟨ih.1.trans hle, fun h hh hnone => hdead h (hh.trans_le ih.1) (ih.2 h hh hnone)⟩

theorem run_dead {ops : List (XsmemOp ε)} {t : XsmemState σ} (hinv : XsmemInv A [] s)
    (hrun : (xsmemMachine A).run s ops = some t) (hlt : h < s.nextXp) (hdead : s.pools h = none) :
    XsmemInv A [] t ∧ t.pools h = none := by
  induction ops generalizing s with
  | nil =>
      obtain rfl := Option.some.inj hrun
      exact ⟨hinv, hdead⟩
  | cons op ops ih =>
      obtain ⟨s₁, hstep, hrest⟩ := Option.bind_eq_some_iff.mp hrun
      have hacts := xsmemStep_acts hinv hstep
      obtain ⟨hle, hdead₁⟩ := hacts.dead
      exact ih (hacts.inv hinv) hrest (hlt.trans_le hle) (hdead₁ h hlt hdead)

/-- The count of a pool is the number of those who refer to it: its
registration, the nodes of the attached tasks and the attaches that are still
blocked.  The pool is there exactly while this number is not zero; afterwards
nothing leads to it, in any later state. -/
structure PoolLifetime (A : PoolAlgo σ ε) (s : XsmemState σ) : Prop where
  refcnt_eq : ∀ h xp, s.pools h = some xp →
    xp.refcnt = registrations s.tasks h + xp.nodeListHead.length + waits s.attaching h
  refcnt_eq_idle : s.attaching = [] → ∀ h xp, s.pools h = some xp →
    xp.refcnt = registrations s.tasks h + xp.nodeListHead.length
  node_iff : ∀ h xp, s.pools h = some xp → ∀ u t, s.tasks u = some t →
    (h ∈ t.nodeListHead ↔ ∃ n ∈ xp.nodeListHead, n.task = u)
  dead_iff : ∀ h < s.nextXp, s.pools h = none ↔
    ¬ Registered s.tasks h ∧ ¬ Attached s.tasks h ∧ waits s.attaching h = 0
  dead_forever : ∀ h < s.nextXp, s.pools h = none → ∀ ops t,
    (xsmemMachine A).run s ops = some t → t.pools h = none ∧ Unreferenced t h

theorem xsmem_pool_lifetime (hs : (xsmemMachine A).Reach s) : PoolLifetime A s := by
  have hinv := xsmem_inv hs
  refine ⟨fun h xp hxp => hinv.refcnt_eq hxp, fun hidle h xp hxp => ?_, fun h xp hxp u t ht => ?_,
    fun h hlt => ?_, fun h hlt hdead ops t hrun => ?_⟩
  · rw [hinv.refcnt_eq hxp, hidle]
    simp [waits]
  · rw [hinv.refs.node_iff ht h, facesOf_eq hxp]
    simp [PoolFace.uids, XsmPool.face, XsmPool.members]
  · rw [hinv.dead_iff]
    exact or_iff_left (not_le.mpr hlt)
  · obtain ⟨hinv', hdead'⟩ := run_dead hinv hrun hlt hdead
    exact ⟨hdead', hinv'.unreferenced hdead'⟩

/-- The processes 10 and 11 share the pool 0, which 10 registered. -/
def shareOps : List (XsmemOp (List Rotate)) :=
  [.open 10 true, .open 11 true,
    .call 1 (.register 10 0 "a" 8192 true) fun _ _ => [],
    .call 1 (.taskAdd 0 (.ok 10) ⟨true, true, true, true, 0⟩ true) fun _ _ => [],
    .call 1 (.attach 10 0 0 (.ok ()) true) fun _ _ => [],
    .call 1 (.taskAdd 0 (.ok 11) ⟨true, true, true, true, 0⟩ true) fun _ _ => [],
    .call 2 (.attach 11 0 0 (.ok ()) true) fun _ _ => []]

/-- The process 10 unregisters the pool and the process 11 keeps it. -/
theorem xsmem_pool_lifetime_shared :
    PoolLifetime (vmaAlgo page4K) ((xsmemMachine (vmaAlgo page4K)).final xsmemInit
      (shareOps ++ [.call 1 (.unregister 0) fun _ _ => []])) :=
  xsmem_pool_lifetime (Machine.Reach.final (s := xsmemInit) (.start rfl) (by decide +kernel))

end OpiaiKernel.Xsmem
