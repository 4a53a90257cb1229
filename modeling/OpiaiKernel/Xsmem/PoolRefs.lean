import Mathlib.Data.List.Nodup
import OpiaiKernel.Xsmem.Framework

/-!
# Who refers to a pool

What the tasks, the blocked attaches and the lookups see of a pool is its face:
its names, its count and its members.  The count is the number of those who
refer to the pool, and only pools that exist are referred to.  Inside a call
the references that it holds itself are listed in `ext`.
-/

namespace OpiaiKernel.Xsmem

structure PoolFace where
  poolId : ℕ
  refcnt : ℤ
  createPid : ℕ
  mntNs : ℕ
  key : String
  members : List (ℕ × ℕ × GroupShareAttr)

/-- The tasks that are attached. -/
def PoolFace.uids (f : PoolFace) : List ℕ := f.members.map Prod.fst

/-- Some task has registered the pool and not unregistered it. -/
def Registered (tasks : ℕ → Option XsmTask) (h : ℕ) : Prop :=
  ∃ u t, tasks u = some t ∧ h ∈ t.registerXpListHead

open Classical in
/-- One for a registered pool. -/
noncomputable def registrations (tasks : ℕ → Option XsmTask) (h : ℕ) : ℕ :=
  if Registered tasks h then 1 else 0

def waits (attaching : List AttachWait) (h : ℕ) : ℕ := attaching.countP fun w => w.xp = h

structure RefInv (ext : List ℕ) (tasks : ℕ → Option XsmTask) (faces : ℕ → Option PoolFace)
    (attaching : List AttachWait) : Prop where
  node_iff : ∀ {u t}, tasks u = some t → ∀ h,
    (h ∈ t.nodeListHead ↔ ∃ f, faces h = some f ∧ u ∈ f.uids)
  node_nodup : ∀ {u t}, tasks u = some t → t.nodeListHead.Nodup
  uids_nodup : ∀ {h f}, faces h = some f → f.uids.Nodup
  member_task : ∀ {h f}, faces h = some f → ∀ m ∈ f.members,
    ∃ t, tasks m.1 = some t ∧ t.pid = m.2.1
  reg_live : ∀ {u t}, tasks u = some t → ∀ h ∈ t.registerXpListHead, ∃ f, faces h = some f
  reg_nodup : ∀ {u t}, tasks u = some t → t.registerXpListHead.Nodup
  reg_uniq : ∀ {u u' t t' h}, tasks u = some t → tasks u' = some t' →
    h ∈ t.registerXpListHead → h ∈ t'.registerXpListHead → u = u'
  wait_live : ∀ w ∈ attaching, ∃ f, faces w.xp = some f
  wait_task : ∀ w ∈ attaching, ∃ t, tasks w.uid = some t
  ext_live : ∀ h ∈ ext, ∃ f, faces h = some f
  refcnt_pos : ∀ {h f}, faces h = some f → 0 < f.refcnt
  refcnt_eq : ∀ {h f}, faces h = some f →
    f.refcnt = registrations tasks h + f.members.length + waits attaching h + ext.count h

variable {ext : List ℕ} {tasks : ℕ → Option XsmTask} {faces : ℕ → Option PoolFace}
  {attaching : List AttachWait} {h u : ℕ} {f f' : PoolFace} {t t' : XsmTask} {w : AttachWait}

/-! ## Counting -/

theorem registrations_of_not (hnot : ¬ Registered tasks h) : registrations tasks h = 0 :=
  if_neg hnot

theorem registrations_of_registered (hreg : Registered tasks h) : registrations tasks h = 1 :=
  if_pos hreg

theorem registrations_congr {tasks' : ℕ → Option XsmTask}
    (hiff : Registered tasks' h ↔ Registered tasks h) :
    registrations tasks' h = registrations tasks h := by
  unfold registrations
  split_ifs <;> simp_all

theorem registered_update (ht : tasks u = some t)
    (hreg : h ∈ t'.registerXpListHead ↔ h ∈ t.registerXpListHead) :
    Registered (Function.update tasks u (some t')) h ↔ Registered tasks h := by
  constructor
  · rintro ⟨x, y, hx, hy⟩
    by_cases hxu : x = u
    · subst hxu
      rw [Function.update_self, Option.some.injEq] at hx
      exact ⟨x, t, ht, hreg.mp (hx ▸ hy)⟩
    · rw [Function.update_of_ne hxu] at hx
      exact ⟨x, y, hx, hy⟩
  · rintro ⟨x, y, hx, hy⟩
    by_cases hxu : x = u
    · subst hxu
      obtain rfl := Option.some.inj (ht.symm.trans hx)
      exact ⟨x, t', Function.update_self .., hreg.mpr hy⟩
    · exact ⟨x, y, by rwa [Function.update_of_ne hxu], hy⟩

theorem waits_cons (w : AttachWait) (attaching : List AttachWait) (h : ℕ) :
    waits (w :: attaching) h = waits attaching h + if w.xp = h then 1 else 0 := by
  simp [waits, List.countP_cons]

theorem waits_erase (hw : w ∈ attaching) (h : ℕ) :
    waits (attaching.erase w) h + (if w.xp = h then 1 else 0) = waits attaching h := by
  rw [← waits_cons, waits, waits]
  exact (List.perm_cons_erase hw).symm.countP_eq _

theorem count_ext (h' : ℕ) (ext : List ℕ) (h : ℕ) :
    (h' :: ext).count h = ext.count h + if h' = h then 1 else 0 := by
  simp [List.count_cons]

theorem uids_length (f : PoolFace) : f.uids.length = f.members.length := List.length_map ..

/-! ## References change hands -/

theorem RefInv.face (hinv : RefInv ext tasks faces attaching) (hf : faces h = some f)
    (hrefcnt : f'.refcnt = f.refcnt) (hmembers : f'.members = f.members) :
    RefInv ext tasks (Function.update faces h (some f')) attaching := by
  have huids : f'.uids = f.uids := congrArg (List.map Prod.fst) hmembers
  obtain ⟨h₁, h₂, h₃, h₄, h₅, h₆, h₇, h₈, h₉, h₁₀, h₁₁, h₁₂⟩ := hinv
  constructor <;> grind [Function.update_apply]

/-- A call takes a reference. -/
theorem RefInv.get (hinv : RefInv ext tasks faces attaching) (hf : faces h = some f)
    (hrefcnt : f'.refcnt = f.refcnt + 1) (hmembers : f'.members = f.members) :
    RefInv (h :: ext) tasks (Function.update faces h (some f')) attaching := by
  have huids : f'.uids = f.uids := congrArg (List.map Prod.fst) hmembers
  have hcount := count_ext h ext
  obtain ⟨h₁, h₂, h₃, h₄, h₅, h₆, h₇, h₈, h₉, h₁₀, h₁₁, h₁₂⟩ := hinv
  constructor <;> grind [Function.update_apply]

/-- A call puts a reference that is not the last one. -/
theorem RefInv.put (hinv : RefInv (h :: ext) tasks faces attaching) (hf : faces h = some f)
    (hmore : f.refcnt - 1 ≠ 0) (hrefcnt : f'.refcnt = f.refcnt - 1)
    (hmembers : f'.members = f.members) :
    RefInv ext tasks (Function.update faces h (some f')) attaching := by
  have huids : f'.uids = f.uids := congrArg (List.map Prod.fst) hmembers
  have hcount := count_ext h ext
  have hpos : 0 < f'.refcnt := by
    have := hinv.refcnt_pos hf
    omega
  obtain ⟨h₁, h₂, h₃, h₄, h₅, h₆, h₇, h₈, h₉, h₁₀, h₁₁, h₁₂⟩ := hinv
  constructor <;> grind [Function.update_apply]

/-- The last reference is put, and the pool is gone. -/
theorem RefInv.delete (hinv : RefInv (h :: ext) tasks faces attaching) (hf : faces h = some f)
    (hlast : f.refcnt - 1 = 0) :
    ¬ Registered tasks h ∧ f.members = [] ∧ waits attaching h = 0 ∧ h ∉ ext ∧
      RefInv ext tasks (Function.update faces h none) attaching := by
  have hcount := count_ext h ext
  have htotal := hinv.refcnt_eq hf
  have hreg : ¬ Registered tasks h := by
    intro hreg
    rw [registrations_of_registered hreg, hcount, if_pos rfl] at htotal
    omega
  rw [hcount, if_pos rfl] at htotal
  have hmembers : f.members = [] := List.length_eq_zero_iff.mp (by omega)
  have hwaits : waits attaching h = 0 := by omega
  have hext : h ∉ ext := List.count_eq_zero.mp (by omega)
  refine ⟨hreg, hmembers, hwaits, hext, ?_⟩
  have huids : f.uids = [] := congrArg (List.map Prod.fst) hmembers
  have hwait : ∀ w ∈ attaching, w.xp ≠ h := by simpa [waits, List.countP_eq_zero] using hwaits
  unfold Registered at hreg
  obtain ⟨h₁, h₂, h₃, h₄, h₅, h₆, h₇, h₈, h₉, h₁₀, h₁₁, h₁₂⟩ := hinv
  constructor <;> grind [Function.update_apply]

/-- The node of a task leaves the pool, and its reference goes to the call. -/
theorem RefInv.detach (hinv : RefInv ext tasks faces attaching) (hf : faces h = some f)
    (ht : tasks u = some t) (hu : u ∈ f.uids) (hrefcnt : f'.refcnt = f.refcnt)
    (hmembers : f'.members = f.members.filter fun m => m.1 ≠ u)
    (hpid : t'.pid = t.pid) (hnode : t'.nodeListHead = t.nodeListHead.erase h)
    (hreg : t'.registerXpListHead = t.registerXpListHead) :
    RefInv (h :: ext) (Function.update tasks u (some t'))
      (Function.update faces h (some f')) attaching := by
  have huids : ∀ x, x ∈ f'.uids ↔ x ∈ f.uids ∧ x ≠ u := by
    intro x
    simp only [PoolFace.uids, hmembers, List.mem_map, List.mem_filter, decide_eq_true_eq]
    constructor
    · rintro ⟨m, ⟨hm, hne⟩, rfl⟩
      exact ⟨⟨m, hm, rfl⟩, hne⟩
    · rintro ⟨⟨m, hm, rfl⟩, hne⟩
      exact ⟨m, ⟨hm, hne⟩, rfl⟩
  have hnodup : f'.uids.Nodup := by
    rw [PoolFace.uids, hmembers]
    exact (hinv.uids_nodup hf).sublist (List.filter_sublist.map _)
  have hlength : f'.members.length + 1 = f.members.length := by
    have hperm : f'.uids.Perm (f.uids.erase u) :=
      (List.perm_ext_iff_of_nodup hnodup ((hinv.uids_nodup hf).erase u)).mpr fun x => by
        rw [huids, (hinv.uids_nodup hf).mem_erase_iff, and_comm]
    have hlen := hperm.length_eq
    rw [List.length_erase_of_mem hu, uids_length, uids_length] at hlen
    have hpos := List.length_pos_of_mem hu
    rw [uids_length] at hpos
    omega
  have hmem : ∀ m ∈ f'.members, m ∈ f.members := by
    intro m hm
    rw [hmembers] at hm
    exact (List.mem_filter.mp hm).1
  have hlist : ∀ k, k ∈ t'.nodeListHead ↔ k ∈ t.nodeListHead ∧ k ≠ h := by
    intro k
    rw [hnode, (hinv.node_nodup ht).mem_erase_iff, and_comm]
  have hlistNodup : t'.nodeListHead.Nodup := hnode ▸ (hinv.node_nodup ht).erase h
  have hregs : ∀ k, registrations (Function.update tasks u (some t')) k = registrations tasks k :=
    fun k => registrations_congr (registered_update ht (by rw [hreg]))
  have hcount := count_ext h ext
  clear hnode hmembers
  obtain ⟨h₁, h₂, h₃, h₄, h₅, h₆, h₇, h₈, h₉, h₁₀, h₁₁, h₁₂⟩ := hinv
  constructor <;> grind [Function.update_apply]

/-- A task takes a pool off its list, and the reference of the registration
goes to the call. -/
theorem RefInv.unregister (hinv : RefInv ext tasks faces attaching) (ht : tasks u = some t)
    (hh : h ∈ t.registerXpListHead) (hpid : t'.pid = t.pid)
    (hnode : t'.nodeListHead = t.nodeListHead)
    (hreg : t'.registerXpListHead = t.registerXpListHead.erase h) :
    RefInv (h :: ext) (Function.update tasks u (some t')) faces attaching := by
  have hlist : ∀ k, k ∈ t'.registerXpListHead ↔ k ∈ t.registerXpListHead ∧ k ≠ h := by
    intro k
    rw [hreg, (hinv.reg_nodup ht).mem_erase_iff, and_comm]
  have hnodup : t'.registerXpListHead.Nodup := hreg ▸ (hinv.reg_nodup ht).erase h
  have hold : registrations tasks h = 1 := registrations_of_registered ⟨u, t, ht, hh⟩
  have hnew : registrations (Function.update tasks u (some t')) h = 0 := by
    apply registrations_of_not
    rintro ⟨x, y, hx, hy⟩
    by_cases hxu : x = u
    · subst hxu
      rw [Function.update_self, Option.some.injEq] at hx
      exact ((hlist h).mp (hx ▸ hy)).2 rfl
    · rw [Function.update_of_ne hxu] at hx
      exact hxu (hinv.reg_uniq hx ht hy hh)
  have hother : ∀ k, k ≠ h →
      registrations (Function.update tasks u (some t')) k = registrations tasks k :=
    fun k hk => registrations_congr (registered_update ht (by simp [hlist, hk]))
  have hcount := count_ext h ext
  clear hreg
  obtain ⟨h₁, h₂, h₃, h₄, h₅, h₆, h₇, h₈, h₉, h₁₀, h₁₁, h₁₂⟩ := hinv
  constructor <;> grind [Function.update_apply]

/-- A task is attached, with a reference of its own. -/
theorem RefInv.attach (hinv : RefInv ext tasks faces attaching) (hf : faces h = some f)
    (ht : tasks u = some t) (hnew : h ∉ t.nodeListHead) (hrefcnt : f'.refcnt = f.refcnt + 1)
    {attr : GroupShareAttr} (hmembers : f'.members = f.members ++ [(u, t.pid, attr)])
    (hpid : t'.pid = t.pid) (hnode : t'.nodeListHead = t.nodeListHead ++ [h])
    (hreg : t'.registerXpListHead = t.registerXpListHead) :
    RefInv ext (Function.update tasks u (some t'))
      (Function.update faces h (some f')) attaching := by
  have hu : u ∉ f.uids := fun hu => hnew ((hinv.node_iff ht h).mpr ⟨f, hf, hu⟩)
  have huids : ∀ x, x ∈ f'.uids ↔ x ∈ f.uids ∨ x = u := by
    simp [PoolFace.uids, hmembers]
  have hnodup : f'.uids.Nodup := by
    rw [PoolFace.uids, hmembers, List.map_append]
    refine (hinv.uids_nodup hf).append (List.nodup_singleton u) ?_
    intro x hx hxu
    have hxu : x = u := List.mem_singleton.mp hxu
    exact hu (hxu ▸ hx)
  have hlength : f'.members.length = f.members.length + 1 := by simp [hmembers]
  have hmem : ∀ m ∈ f'.members, m ∈ f.members ∨ m.1 = u ∧ m.2.1 = t.pid := by
    intro m hm
    rw [hmembers, List.mem_append, List.mem_singleton] at hm
    exact hm.imp_right fun heq => by simp [heq]
  have hlist : ∀ k, k ∈ t'.nodeListHead ↔ k ∈ t.nodeListHead ∨ k = h := by simp [hnode]
  have hlistNodup : t'.nodeListHead.Nodup := by
    rw [hnode]
    refine (hinv.node_nodup ht).append (List.nodup_singleton h) ?_
    intro x hx hxh
    exact hnew (List.mem_singleton.mp hxh ▸ hx)
  have hregs : ∀ k, registrations (Function.update tasks u (some t')) k = registrations tasks k :=
    fun k => registrations_congr (registered_update ht (by rw [hreg]))
  clear hnode hmembers
  obtain ⟨h₁, h₂, h₃, h₄, h₅, h₆, h₇, h₈, h₉, h₁₀, h₁₁, h₁₂⟩ := hinv
  constructor <;> grind [Function.update_apply]

/-- A pool comes into being with the reference of its registration. -/
theorem RefInv.register (hinv : RefInv ext tasks faces attaching) (hfresh : faces h = none)
    (ht : tasks u = some t) (hrefcnt : f'.refcnt = 1) (hmembers : f'.members = [])
    (hpid : t'.pid = t.pid) (hnode : t'.nodeListHead = t.nodeListHead)
    (hreg : t'.registerXpListHead = t.registerXpListHead ++ [h]) :
    RefInv ext (Function.update tasks u (some t'))
      (Function.update faces h (some f')) attaching := by
  have hdead : ∀ {f}, faces h ≠ some f := by simp [hfresh]
  have huids : f'.uids = [] := congrArg (List.map Prod.fst) hmembers
  have hnot : h ∉ t.registerXpListHead := by
    intro hh
    obtain ⟨f, hf⟩ := hinv.reg_live ht h hh
    exact hdead hf
  have hlist : ∀ k, k ∈ t'.registerXpListHead ↔ k ∈ t.registerXpListHead ∨ k = h := by
    simp [hreg]
  have hnodup : t'.registerXpListHead.Nodup := by
    rw [hreg]
    refine (hinv.reg_nodup ht).append (List.nodup_singleton h) ?_
    intro x hx hxh
    exact hnot (List.mem_singleton.mp hxh ▸ hx)
  have hnew : registrations (Function.update tasks u (some t')) h = 1 :=
    registrations_of_registered ⟨u, t', Function.update_self .., (hlist h).mpr (.inr rfl)⟩
  have hother : ∀ k, k ≠ h →
      registrations (Function.update tasks u (some t')) k = registrations tasks k :=
    fun k hk => registrations_congr (registered_update ht (by simp [hlist, hk]))
  have hwait : waits attaching h = 0 := by
    rw [waits, List.countP_eq_zero]
    intro w hw
    obtain ⟨f, hf⟩ := hinv.wait_live w hw
    exact fun hwh => hdead (of_decide_eq_true hwh ▸ hf)
  have hext : ext.count h = 0 := by
    rw [List.count_eq_zero]
    intro hmem
    obtain ⟨f, hf⟩ := hinv.ext_live h hmem
    exact hdead hf
  have hlength : f'.members.length = 0 := by simp [hmembers]
  clear hreg
  obtain ⟨h₁, h₂, h₃, h₄, h₅, h₆, h₇, h₈, h₉, h₁₀, h₁₁, h₁₂⟩ := hinv
  constructor <;> grind [Function.update_apply]

/-- A task comes with empty lists. -/
theorem RefInv.open (hinv : RefInv ext tasks faces attaching) (hfresh : tasks u = none)
    (hnode : t'.nodeListHead = []) (hreg : t'.registerXpListHead = []) :
    RefInv ext (Function.update tasks u (some t')) faces attaching := by
  have huids : ∀ {h f}, faces h = some f → u ∉ f.uids := by
    intro h f hf hu
    obtain ⟨m, hm, rfl⟩ := List.mem_map.mp hu
    obtain ⟨t, ht, -⟩ := hinv.member_task hf m hm
    simp [hfresh] at ht
  have hregs : ∀ k, registrations (Function.update tasks u (some t')) k = registrations tasks k := by
    refine fun k => registrations_congr ⟨?_, ?_⟩
    · rintro ⟨x, y, hx, hy⟩
      by_cases hxu : x = u
      · subst hxu
        rw [Function.update_self, Option.some.injEq] at hx
        simp [← hx, hreg] at hy
      · exact ⟨x, y, by rwa [Function.update_of_ne hxu] at hx, hy⟩
    · rintro ⟨x, y, hx, hy⟩
      have hxu : x ≠ u := by
        rintro rfl
        simp [hfresh] at hx
      exact ⟨x, y, by rwa [Function.update_of_ne hxu], hy⟩
  obtain ⟨h₁, h₂, h₃, h₄, h₅, h₆, h₇, h₈, h₉, h₁₀, h₁₁, h₁₂⟩ := hinv
  constructor <;> grind [Function.update_apply]

/-- A task goes with empty lists. -/
theorem RefInv.close (hinv : RefInv ext tasks faces attaching) (ht : tasks u = some t)
    (hnode : t.nodeListHead = []) (hreg : t.registerXpListHead = [])
    (hwait : ∀ w ∈ attaching, w.uid ≠ u) :
    RefInv ext (Function.update tasks u none) faces attaching := by
  have huids : ∀ {h f}, faces h = some f → ∀ m ∈ f.members, m.1 ≠ u := by
    rintro h f hf m hm rfl
    have hmem := (hinv.node_iff ht h).mpr ⟨f, hf, List.mem_map_of_mem hm⟩
    simp [hnode] at hmem
  have hregs : ∀ k, registrations (Function.update tasks u none) k = registrations tasks k := by
    refine fun k => registrations_congr ⟨?_, ?_⟩
    · rintro ⟨x, y, hx, hy⟩
      have hxu : x ≠ u := by
        rintro rfl
        simp at hx
      exact ⟨x, y, by rwa [Function.update_of_ne hxu] at hx, hy⟩
    · rintro ⟨x, y, hx, hy⟩
      have hxu : x ≠ u := by
        rintro rfl
        obtain rfl := Option.some.inj (ht.symm.trans hx)
        simp [hreg] at hy
      exact ⟨x, y, by rwa [Function.update_of_ne hxu], hy⟩
  obtain ⟨h₁, h₂, h₃, h₄, h₅, h₆, h₇, h₈, h₉, h₁₀, h₁₁, h₁₂⟩ := hinv
  constructor <;> grind [Function.update_apply]

/-- A call blocks and keeps its reference. -/
theorem RefInv.block (hinv : RefInv (w.xp :: ext) tasks faces attaching)
    (ht : tasks w.uid = some t) : RefInv ext tasks faces (w :: attaching) := by
  have hcount := count_ext w.xp ext
  have hwaits := waits_cons w attaching
  have hlive := hinv.ext_live w.xp (by simp)
  obtain ⟨h₁, h₂, h₃, h₄, h₅, h₆, h₇, h₈, h₉, h₁₀, h₁₁, h₁₂⟩ := hinv
  constructor <;> grind

/-- A blocked call goes on. -/
theorem RefInv.unblock (hinv : RefInv ext tasks faces attaching) (hw : w ∈ attaching) :
    RefInv (w.xp :: ext) tasks faces (attaching.erase w) := by
  have hcount := count_ext w.xp ext
  have hwaits := waits_erase hw
  have hsub : ∀ x ∈ attaching.erase w, x ∈ attaching := fun _ => List.mem_of_mem_erase
  obtain ⟨h₁, h₂, h₃, h₄, h₅, h₆, h₇, h₈, h₉, h₁₀, h₁₁, h₁₂⟩ := hinv
  constructor <;> grind

end OpiaiKernel.Xsmem
