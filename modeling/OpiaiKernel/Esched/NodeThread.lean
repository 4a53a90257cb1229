import Mathlib.Data.List.Count
import OpiaiKernel.Esched.GroupMap
import OpiaiKernel.Esched.Node

/-!
# Threads, cpus and calls

A cpu runs one thread, a thread runs under one call that holds its mutex, and
one search at a time picks the next thread of a cpu.  From this it follows that
an event is only put into the slot of a thread that has none.

The facts are stated over a view of the node.  A step changes one thread, the
current thread of one cpu and one call; `ThreadInv.change` says what is to be
shown about these, and that the rest stays as it is.
-/

namespace OpiaiKernel.Esched

/-- What the facts about threads depend on. -/
@[ext] structure ThreadView where
  mode : GrpId → SchedMode
  valid : ThreadId → Bool
  bind : ThreadId → ℕ
  status : ThreadId → ThreadStatus
  wait : ThreadId → Bool
  slot : ThreadId → Option ℕ
  cur : ℕ → Option ThreadId
  calls : List Call

def SchedNode.view (s : SchedNode) : ThreadView where
  mode k := s.mode k
  valid t := (s.thread t).valid
  bind t := (s.thread t).bindCpuid
  status t := (s.thread t).status
  wait t := (s.thread t).waitFlag
  slot := s.slot
  cur := s.cur
  calls := s.calls

namespace Call

/-- The call has the thread to itself. -/
def busy (t : ThreadId) (c : Call) : Bool := c.locks t || c.isExact t

/-- The call is a wait of the thread. -/
def waits (t : ThreadId) : Call → Bool
  | .finish u (.wait _) _ | .entered u _ | .sleeping u _ | .woken u _ => u = t
  | _ => false

/-- What is known about the call depends on the thread. -/
def About (v : ThreadView) (t : ThreadId) : Call → Prop
  | .search _ owner | .took _ owner _ | .found _ owner _ => owner = some t
  | .finish u .. | .entered u _ | .exact u .. => u = t
  | .sleeping u _ => u = t ∧ v.mode t.1 = .nonSchedCpu
  | _ => False

/-- What is known about the call depends on the current thread of the cpu. -/
def OnCpu (c : ℕ) : Call → Prop
  | .search cpuid _ | .took cpuid .. | .found cpuid .. => cpuid = c
  | .finish _ (.timeout cpuid _) _ | .finish _ (.exit cpuid) _ => cpuid = c
  | _ => False

end Call

/-- The thread belongs to the cpu. -/
structure Bound (v : ThreadView) (c : ℕ) (t : ThreadId) : Prop where
  mode : v.mode t.1 = .schedCpu
  valid : v.valid t = true
  bind : v.bind t = c

/-- What holds while the call is under way. -/
def CallOk (cfg : NodeCfg) (v : ThreadView) : Call → Prop
  | .search c owner | .took c owner _ =>
      c ∈ cfg.cpus ∧ v.cur c = owner ∧ ∀ t ∈ owner, v.slot t = none
  | .found c owner t =>
      c ∈ cfg.cpus ∧ v.cur c = owner ∧ (∀ u ∈ owner, u ≠ t → v.slot u = none) ∧ Bound v c t
  | .finish t why o =>
      v.valid t = true ∧ v.slot t = some o ∧ (v.mode t.1 = .nonSchedCpu → v.wait t = true) ∧
        match why with
        | .wait _ => v.status t = .run
        | .timeout c _ | .exit c => v.cur c = some t
  | .entered t _ =>
      v.valid t = true ∧ (v.mode t.1 = .schedCpu → v.status t = .run → v.slot t = none) ∧
        (v.mode t.1 = .nonSchedCpu → v.status t ≠ .run ∧ v.wait t = true)
  | .sleeping t _ =>
      v.valid t = true ∧ (v.mode t.1 = .nonSchedCpu → v.status t ≠ .run ∧ v.wait t = true)
  | .woken t _ => v.valid t = true ∧ v.mode t.1 = .schedCpu
  | .exact t _ old => v.valid t = true ∧ v.slot t = some old ∧ v.status t = .run
  | _ => True

/-- A thread has its event while it is the current one of its cpu, or while the
cpu has picked it; without a cpu, while it runs. -/
def SlotOk (v : ThreadView) (t : ThreadId) : Prop :=
  v.slot t ≠ none → v.valid t = true ∧
    (v.mode t.1 = .schedCpu →
      v.cur (v.bind t) = some t ∨ ∃ owner, .found (v.bind t) owner t ∈ v.calls) ∧
    (v.mode t.1 ≠ .schedCpu → v.status t = .run)

/-- A scheduled thread that is ready or runs is the current one of its cpu. -/
def ActiveOk (v : ThreadView) (t : ThreadId) : Prop :=
  v.mode t.1 = .schedCpu → v.status t ≠ .idle → v.cur (v.bind t) = some t

structure ThreadInv (cfg : NodeCfg) (v : ThreadView) : Prop where
  busy : ∀ t, v.calls.countP (Call.busy t) ≤ 1
  selects : ∀ c, v.calls.countP (Call.selects c) ≤ 1
  waits : ∀ t, v.mode t.1 = .nonSchedCpu → v.calls.countP (Call.waits t) ≤ 1
  call : ∀ n ∈ v.calls, CallOk cfg v n
  cur : ∀ c t, v.cur c = some t → c ∈ cfg.cpus ∧ Bound v c t
  fresh : ∀ t, v.valid t = false → v.status t = .idle
  active : ∀ t, ActiveOk v t
  slot : ∀ t, SlotOk v t

/-! ## One change -/

section Change

variable {cfg : NodeCfg} {v v' : ThreadView} {t : ThreadId}

theorem Bound.congr {c : ℕ} (h : Bound v c t) (hmode : v'.mode = v.mode)
    (hvalid : v'.valid = v.valid) (hbind : v'.bind = v.bind) : Bound v' c t :=
  ⟨hmode ▸ h.mode, hvalid ▸ h.valid, hbind ▸ h.bind⟩

/-- What is known about a call stays when the thread and the cpu that it is
about stay. -/
theorem CallOk.frame {n : Call} (h : CallOk cfg v n) (hmode : v'.mode = v.mode)
    (hvalid : v'.valid = v.valid) (hbind : v'.bind = v.bind)
    (hoff : ∀ u ≠ t, v'.status u = v.status u ∧ v'.wait u = v.wait u ∧ v'.slot u = v.slot u)
    (hnot : ¬ n.About v t) (hcur : ∀ c, n.OnCpu c → v'.cur c = v.cur c) : CallOk cfg v' n := by
  cases n with
  | publish | alloced | checked | refused | adding | added | failed => trivial
  | search c owner =>
      obtain ⟨hc, howner, hslot⟩ := h
      refine ⟨hc, (hcur c rfl).trans howner, fun u hu => ?_⟩
      have hne : u ≠ t := by
        rintro rfl
        exact hnot hu
      rw [(hoff u hne).2.2]
      exact hslot u hu
  | took c owner o =>
      obtain ⟨hc, howner, hslot⟩ := h
      refine ⟨hc, (hcur c rfl).trans howner, fun u hu => ?_⟩
      have hne : u ≠ t := by
        rintro rfl
        exact hnot hu
      rw [(hoff u hne).2.2]
      exact hslot u hu
  | found c owner u =>
      obtain ⟨hc, howner, hslot, hbound⟩ := h
      refine ⟨hc, (hcur c rfl).trans howner, fun w hw hwu => ?_, hbound.congr hmode hvalid hbind⟩
      have hne : w ≠ t := by
        rintro rfl
        exact hnot hw
      rw [(hoff w hne).2.2]
      exact hslot w hw hwu
  | finish u why o =>
      obtain ⟨hstatus, hwait, hslot⟩ := hoff u hnot
      simp only [CallOk, hmode, hvalid, hstatus, hwait, hslot] at h ⊢
      refine ⟨h.1, h.2.1, h.2.2.1, ?_⟩
      cases why with
      | wait cpuid => exact h.2.2.2
      | timeout cpuid timestamp => exact (hcur cpuid rfl).trans h.2.2.2
      | exit cpuid => exact (hcur cpuid rfl).trans h.2.2.2
  | entered u c =>
      obtain ⟨hstatus, hwait, hslot⟩ := hoff u hnot
      simpa only [CallOk, hmode, hvalid, hstatus, hwait, hslot] using h
  | sleeping u c =>
      simp only [CallOk, hmode, hvalid] at h ⊢
      refine ⟨h.1, fun hnon => ?_⟩
      have hne : u ≠ t := by
        rintro rfl
        exact hnot ⟨rfl, hnon⟩
      obtain ⟨hstatus, hwait, -⟩ := hoff u hne
      rw [hstatus, hwait]
      exact h.2 hnon
  | woken u c => simpa only [CallOk, hmode, hvalid] using h
  | exact u o old =>
      obtain ⟨hstatus, hwait, hslot⟩ := hoff u hnot
      simpa only [CallOk, hvalid, hstatus, hslot] using h

/-- The step changes the thread `t`, calls about it, and cpus that have `t` or
no thread. -/
theorem ThreadInv.change (h : ThreadInv cfg v) (t : ThreadId) (hmode : v'.mode = v.mode)
    (hvalid : v'.valid = v.valid) (hbind : v'.bind = v.bind)
    (hoff : ∀ u ≠ t, v'.status u = v.status u ∧ v'.wait u = v.wait u ∧ v'.slot u = v.slot u)
    (hcur : ∀ c, v'.cur c = v.cur c ∨ (∀ u, v.cur c = some u → u = t) ∧
      ∀ u, v'.cur c = some u → c ∈ cfg.cpus ∧ Bound v c u)
    (hcalls : ∀ n ∈ v'.calls, CallOk cfg v' n ∨
      n ∈ v.calls ∧ ¬ n.About v t ∧ ∀ c, n.OnCpu c → v'.cur c = v.cur c)
    (hfound : ∀ u ≠ t, ∀ c owner, .found c owner u ∈ v.calls →
      .found c owner u ∈ v'.calls ∨ v'.cur c = some u)
    (hbusy : ∀ u, v'.calls.countP (Call.busy u) ≤ 1)
    (hselects : ∀ c, v'.calls.countP (Call.selects c) ≤ 1)
    (hwaits : ∀ u, v.mode u.1 = .nonSchedCpu → v'.calls.countP (Call.waits u) ≤ 1)
    (hfresh : v.valid t = true) (hactive : ActiveOk v' t) (hslot : SlotOk v' t) :
    ThreadInv cfg v' := by
  have hkeep {c : ℕ} {u : ThreadId} (hne : u ≠ t) (hu : v.cur c = some u) :
      v'.cur c = some u := by
    rcases hcur c with heq | ⟨honly, -⟩
    · exact heq.trans hu
    · exact absurd (honly u hu) hne
  refine ⟨hbusy, hselects, fun u hu => hwaits u (hmode ▸ hu), fun n hn => ?_, fun c u hu => ?_,
    fun u hu => ?_, fun u => ?_, fun u => ?_⟩
  · rcases hcalls n hn with hok | ⟨hmem, hnot, hon⟩
    · exact hok
    · exact (h.call n hmem).frame hmode hvalid hbind hoff hnot hon
  · rcases hcur c with heq | ⟨-, hnew⟩
    · obtain ⟨hc, hbound⟩ := h.cur c u (heq ▸ hu)
      exact ⟨hc, hbound.congr hmode hvalid hbind⟩
    · obtain ⟨hc, hbound⟩ := hnew u hu
      exact ⟨hc, hbound.congr hmode hvalid hbind⟩
  · rw [hvalid] at hu
    have hne : u ≠ t := by
      rintro rfl
      rw [hfresh] at hu
      cases hu
    rw [(hoff u hne).1]
    exact h.fresh u hu
  · rcases eq_or_ne u t with rfl | hne
    · exact hactive
    · intro hsched hstatus
      rw [hmode] at hsched
      rw [(hoff u hne).1] at hstatus
      rw [hbind]
      exact hkeep hne (h.active u hsched hstatus)
  · rcases eq_or_ne u t with rfl | hne
    · exact hslot
    · intro hsome
      rw [(hoff u hne).2.2] at hsome
      obtain ⟨hval, hsched, hnon⟩ := h.slot u hsome
      rw [hmode, hvalid, hbind, (hoff u hne).1]
      refine ⟨hval, fun hs => ?_, hnon⟩
      rcases hsched hs with hu | ⟨owner, hfnd⟩
      · exact Or.inl (hkeep hne hu)
      · rcases hfound u hne _ _ hfnd with hmem | hu
        · exact Or.inr ⟨owner, hmem⟩
        · exact Or.inl hu

/-- What is known about a call does not depend on the other calls. -/
theorem CallOk.setCalls {n : Call} (hn : CallOk cfg v n) (calls : List Call) :
    CallOk cfg { v with calls } n := by
  cases n with
  | found c owner u =>
      obtain ⟨hc, howner, hslot, hbound⟩ := hn
      exact ⟨hc, howner, hslot, hbound.mode, hbound.valid, hbound.bind⟩
  | _ => exact hn

theorem ThreadInv.setCalls (h : ThreadInv cfg v) {calls : List Call}
    (hcalls : ∀ n ∈ calls, CallOk cfg v n)
    (hfound : ∀ c owner u, .found c owner u ∈ v.calls → .found c owner u ∈ calls)
    (hbusy : ∀ u, calls.countP (Call.busy u) ≤ 1)
    (hselects : ∀ c, calls.countP (Call.selects c) ≤ 1)
    (hwaits : ∀ u, v.mode u.1 = .nonSchedCpu → calls.countP (Call.waits u) ≤ 1) :
    ThreadInv cfg { v with calls } := by
  refine ⟨hbusy, hselects, hwaits, fun n hn => (hcalls n hn).setCalls calls, fun c u hu => ?_,
    h.fresh, h.active, fun u hu => ?_⟩
  · obtain ⟨hc, hbound⟩ := h.cur c u hu
    exact ⟨hc, hbound.mode, hbound.valid, hbound.bind⟩
  · obtain ⟨hval, hsched, hnon⟩ := h.slot u hu
    exact ⟨hval, fun hs => (hsched hs).imp_right fun ⟨owner, hfnd⟩ => ⟨owner, hfound _ _ _ hfnd⟩,
      hnon⟩

/-- A group changes, and its registered threads stay as they are. -/
theorem ThreadInv.setGroups (h : ThreadInv cfg v)
    (hinit : ∀ t, v.valid t = true → v.mode t.1 ≠ .uninit)
    (hmode : ∀ k, v.mode k ≠ .uninit → v'.mode k = v.mode k)
    (hkeep : ∀ t, v.valid t = true → v'.valid t = true ∧ v'.bind t = v.bind t ∧
      v'.status t = v.status t ∧ (v.wait t = true → v'.wait t = true))
    (hnew : ∀ t, v.valid t = false → v'.status t = .idle) (hslot : v'.slot = v.slot)
    (hcur : v'.cur = v.cur) (hcalls : v'.calls = v.calls) : ThreadInv cfg v' := by
  have hmode' {t : ThreadId} (ht : v.valid t = true) : v'.mode t.1 = v.mode t.1 :=
    hmode t.1 (hinit t ht)
  have hbound {c : ℕ} {t : ThreadId} (hb : Bound v c t) : Bound v' c t := by
    obtain ⟨hval, hbind, -, -⟩ := hkeep t hb.valid
    exact ⟨(hmode' hb.valid).trans hb.mode, hval, hbind.trans hb.bind⟩
  have hok {n : Call} (hn : CallOk cfg v n) : CallOk cfg v' n := by
    cases n with
    | publish | alloced | checked | refused | adding | added | failed => trivial
    | search c owner =>
        simpa only [CallOk, hslot, hcur] using hn
    | took c owner o =>
        simpa only [CallOk, hslot, hcur] using hn
    | found c owner t =>
        obtain ⟨hc, howner, hs, hb⟩ := hn
        exact ⟨hc, hcur ▸ howner, hslot ▸ hs, hbound hb⟩
    | finish t why o =>
        obtain ⟨hval, hs, hwait, hwhy⟩ := hn
        obtain ⟨hval', -, hstatus, hwait'⟩ := hkeep t hval
        refine ⟨hval', hslot ▸ hs, fun hm => hwait' (hwait (hmode' hval ▸ hm)), ?_⟩
        cases why with
        | wait cpuid => exact hstatus.trans hwhy
        | timeout cpuid timestamp => exact hcur ▸ hwhy
        | exit cpuid => exact hcur ▸ hwhy
    | entered t c =>
        obtain ⟨hval, hsched, hnon⟩ := hn
        obtain ⟨hval', -, hstatus, hwait'⟩ := hkeep t hval
        simp only [CallOk, hmode' hval, hstatus, hslot]
        exact ⟨hval', hsched, fun hm => (hnon hm).imp_right hwait'⟩
    | sleeping t c =>
        obtain ⟨hval, hnon⟩ := hn
        obtain ⟨hval', -, hstatus, hwait'⟩ := hkeep t hval
        simp only [CallOk, hmode' hval, hstatus]
        exact ⟨hval', fun hm => (hnon hm).imp_right hwait'⟩
    | woken t c => exact ⟨(hkeep t hn.1).1, (hmode' hn.1).trans hn.2⟩
    | exact t o old =>
        obtain ⟨hval, hs, hstatus⟩ := hn
        obtain ⟨hval', -, hstatus', -⟩ := hkeep t hval
        exact ⟨hval', hslot ▸ hs, hstatus'.trans hstatus⟩
  refine ⟨hcalls ▸ h.busy, hcalls ▸ h.selects, fun t hm => ?_, fun n hn => ?_, fun c t ht => ?_,
    fun t ht => ?_, fun t hsched hstatus => ?_, fun t hsome => ?_⟩
  · rw [hcalls]
    by_cases hval : v.valid t = true
    · exact h.waits t (hmode' hval ▸ hm)
    · -- a thread that waits is registered
      rw [List.countP_eq_zero.mpr]
      · exact Nat.zero_le 1
      · intro n hn hw
        have hnok := h.call n hn
        cases n <;> simp only [Call.waits, decide_eq_true_eq, Bool.false_eq_true] at hw
        · next u why o =>
            cases why <;> simp only [decide_eq_true_eq, Bool.false_eq_true] at hw
            exact hval (hw ▸ hnok.1)
        · exact hval (hw ▸ hnok.1)
        · exact hval (hw ▸ hnok.1)
        · exact hval (hw ▸ hnok.1)
  · exact hok (h.call n (hcalls ▸ hn))
  · obtain ⟨hc, hb⟩ := h.cur c t (hcur ▸ ht)
    exact ⟨hc, hbound hb⟩
  · cases hval : v.valid t with
    | false => exact hnew t hval
    | true =>
        rw [(hkeep t hval).1] at ht
        cases ht
  · cases hval : v.valid t with
    | false => exact absurd (hnew t hval) hstatus
    | true =>
        obtain ⟨-, hbind, hst, -⟩ := hkeep t hval
        rw [hcur, hbind]
        exact h.active t (hmode' hval ▸ hsched) (hst ▸ hstatus)
  · rw [hslot] at hsome
    obtain ⟨hval, hsched, hnon⟩ := h.slot t hsome
    obtain ⟨hval', hbind, hst, -⟩ := hkeep t hval
    rw [hmode' hval, hbind, hst, hcur, hcalls]
    exact ⟨hval', hsched, hnon⟩

end Change

end OpiaiKernel.Esched
