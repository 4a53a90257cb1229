import OpiaiKernel.Lib.KeyCount
import OpiaiKernel.Trs.ResMng

/-!
# The counters of the resource ids

An id that the allocator handed out is about to be entered, is owned, or is on
its way back, and each of these once.  The references to an owned id are the
one of its allocation, until a free has put it, and the gets.  How a step
changes the counters follows from the one id whose entry it changes.
-/

namespace OpiaiKernel.Trs

variable {s t : ResState} {res r : TrsRes} {proc p : TrsProc} {ty : ℕ}

def TrsResIds.owned (ids : TrsResIds) : Bool := ids.pid ≠ 0

def TrsResIds.allocatedBy (proc : TrsProc) (ids : TrsResIds) : Bool := trsIsIdPidMatch ids proc

/-- The allocation of the id was not freed. -/
def TrsResIds.allocated (ids : TrsResIds) : Bool := ids.pid ≠ 0 && ids.status = .normal

/-- A truth value as a number. -/
def bit (b : Bool) : ℤ := if b then 1 else 0

@[simp] theorem bit_true : bit true = 1 := rfl

@[simp] theorem bit_false : bit false = 0 := rfl

/-- The number of ids of a type whose entries satisfy `q`. -/
def ResState.idNum (s : ResState) (q : TrsResIds → Bool) (ty : ℕ) : ℕ :=
  (List.range (s.maxId ty)).countP fun i => q (s.ids (ty, i))

/-- One entry changes. -/
theorem ResState.idNum_setIds (hlt : res.2 < s.maxId res.1) (q : TrsResIds → Bool)
    (ids : TrsResIds) (ty : ℕ) :
    ((s.setIds res ids).idNum q ty : ℤ) =
      s.idNum q ty + if ty = res.1 then bit (q ids) - bit (q (s.ids res)) else 0 := by
  have hother {i : ℕ} (hne : (ty, i) ≠ res) : (s.setIds res ids).ids (ty, i) = s.ids (ty, i) :=
    Function.update_of_ne hne ..
  split_ifs with hty
  · subst hty
    have hself : (s.setIds res ids).ids (res.1, res.2) = ids := Function.update_self ..
    have hne (i : ℕ) (hi : i ≠ res.2) : (res.1, i) ≠ res := fun heq => hi (by rw [← heq])
    have hmem : res.2 ∈ List.range (s.maxId res.1) := List.mem_range.mpr hlt
    change (((List.range (s.maxId res.1)).countP
      fun i => q ((s.setIds res ids).ids (res.1, i)) : ℕ) : ℤ) = _
    unfold idNum
    cases hnew : q ids <;> cases hold : q (s.ids res)
    · rw [KeyCount.congr (q := fun i => q (s.ids (res.1, i)))]
      · simp
      · intro i _
        by_cases hi : i = res.2
        · rw [hi, hself, hnew, hold]
        · rw [hother (hne i hi)]
    · rw [KeyCount.lose (p := fun i => q (s.ids (res.1, i)))
        (q := fun i => q ((s.setIds res ids).ids (res.1, i))) List.nodup_range hmem hold
        (by rw [hself, hnew]) fun i _ hi => by rw [hother (hne i hi)]]
      simp only [bit_false, bit_true]
      omega
    · rw [KeyCount.gain (p := fun i => q (s.ids (res.1, i)))
        (q := fun i => q ((s.setIds res ids).ids (res.1, i))) List.nodup_range hmem hold
        (by rw [hself, hnew]) fun i _ hi => by rw [hother (hne i hi)]]
      simp
    · rw [KeyCount.congr (q := fun i => q (s.ids (res.1, i)))]
      · simp
      · intro i _
        by_cases hi : i = res.2
        · rw [hi, hself, hnew, hold]
        · rw [hother (hne i hi)]
  · rw [Int.add_zero]
    refine congrArg Nat.cast (KeyCount.congr fun i _ => ?_)
    rw [hother fun heq => hty (by rw [← heq])]

/-- The counters of the types and of the processes. -/
structure ResNums (s : ResState) : Prop where
  useNum : ∀ ty, s.useNum ty = s.idNum TrsResIds.owned ty
  currentIdNum : ∀ proc ty, proc.pid ≠ 0 →
    s.currentIdNum proc ty = s.idNum (TrsResIds.allocatedBy proc) ty

/-- Where an id is, and who refers to it; `hand` are the references that the
step in progress has in its hand. -/
structure ResAt (hand : List TrsRes) (s : ResState) (r : TrsRes) : Prop where
  out : (s.out.count r : ℤ) =
    (s.pending.map Prod.snd).count r + s.returning.count r + bit (s.ids r).owned
  ref : (s.ids r).ref =
    bit (s.ids r).allocated + s.freeing.count r + s.gets.count r + hand.count r
  owned_iff : (s.ids r).pid ≠ 0 ↔ 0 < (s.ids r).ref
  range : (s.ids r).pid ≠ 0 → r.2 < s.maxId r.1

structure ResRefs (hand : List TrsRes) (s : ResState) : Prop where
  nodup : s.out.Nodup
  pending : ∀ p ∈ s.pending, p.1.pid ≠ 0
  each : ∀ r, ResAt hand s r

structure ResInv (hand : List TrsRes) (s : ResState) : Prop where
  nums : ResNums s
  refs : ResRefs hand s

namespace ResNums

theorem congr (h : ResNums s) (hmax : t.maxId = s.maxId) (hids : t.ids = s.ids)
    (huse : t.useNum = s.useNum) (hcur : t.currentIdNum = s.currentIdNum) : ResNums t := by
  have hnum (q : TrsResIds → Bool) (ty : ℕ) : t.idNum q ty = s.idNum q ty := by
    rw [ResState.idNum, ResState.idNum, hmax, hids]
  exact ⟨fun ty => by rw [huse, hnum, h.useNum], fun p ty hp => by
    rw [hcur, hnum, h.currentIdNum p ty hp]⟩

/-- One entry changes, and the counters with it. -/
theorem change (h : ResNums s) (hlt : res.2 < s.maxId res.1) (ids : TrsResIds) {a b : ℤ}
    (proc : TrsProc) (ha : bit ids.owned - bit (s.ids res).owned = a)
    (hb : ∀ p, p.pid ≠ 0 →
      bit (ids.allocatedBy p) - bit ((s.ids res).allocatedBy p) = if p = proc then b else 0) :
    ResNums (((s.setIds res ids).addUseNum res.1 a).addCurrentIdNum proc res.1 b) := by
  constructor
  · intro ty
    change Function.update s.useNum res.1 (s.useNum res.1 + a) ty =
      (s.setIds res ids).idNum TrsResIds.owned ty
    rw [ResState.idNum_setIds hlt, ha]
    by_cases hty : ty = res.1
    · rw [hty, Function.update_self, if_pos rfl, h.useNum]
    · rw [Function.update_of_ne hty, if_neg hty, h.useNum, Int.add_zero]
  · intro p ty hp
    change Function.update s.currentIdNum proc (Function.update (s.currentIdNum proc) res.1
      (s.currentIdNum proc res.1 + b)) p ty = (s.setIds res ids).idNum (TrsResIds.allocatedBy p) ty
    rw [ResState.idNum_setIds hlt, hb p hp]
    by_cases hproc : p = proc
    · subst hproc
      rw [Function.update_self, if_pos rfl]
      by_cases hty : ty = res.1
      · rw [hty, Function.update_self, if_pos rfl, h.currentIdNum p _ hp]
      · rw [Function.update_of_ne hty, if_neg hty, h.currentIdNum p _ hp, Int.add_zero]
    · rw [Function.update_of_ne hproc, if_neg hproc, ite_self, h.currentIdNum p _ hp,
        Int.add_zero]

/-- The entry keeps its owner and its status. -/
theorem changeRef (h : ResNums s) (hlt : res.2 < s.maxId res.1) (ref : ℤ) :
    ResNums (s.setIds res { s.ids res with ref := ref }) := by
  have hchange := h.change hlt { s.ids res with ref := ref } (a := 0) (b := 0)
    ⟨0, 0⟩ (by simp [TrsResIds.owned])
    fun p _ => by simp [TrsResIds.allocatedBy, trsIsIdPidMatch]
  refine hchange.congr rfl rfl ?_ ?_
  · simp [ResState.addUseNum, ResState.addCurrentIdNum, ResState.setIds]
  · simp [ResState.addUseNum, ResState.addCurrentIdNum, ResState.setIds]

end ResNums

theorem bit_nonneg (b : Bool) : 0 ≤ bit b := by cases b <;> simp

theorem bit_eq_zero {b : Bool} : bit b = 0 ↔ b = false := by cases b <;> simp

/-- A step that is about another id. -/
theorem ResAt.congr {hand hand' : List TrsRes} (h : ResAt hand s r) (hmax : t.maxId = s.maxId)
    (hids : t.ids r = s.ids r) (hout : t.out.count r = s.out.count r)
    (hpending : (t.pending.map Prod.snd).count r = (s.pending.map Prod.snd).count r)
    (hreturning : t.returning.count r = s.returning.count r)
    (hfreeing : t.freeing.count r = s.freeing.count r) (hgets : t.gets.count r = s.gets.count r)
    (hhand : hand'.count r = hand.count r) : ResAt hand' t r := by
  refine ⟨?_, ?_, ?_, ?_⟩
  · rw [hout, hpending, hreturning, hids]
    exact h.out
  · rw [hids, hfreeing, hgets, hhand]
    exact h.ref
  · rw [hids]
    exact h.owned_iff
  · rw [hids, hmax]
    exact h.range

/-- Whoever has a reference in hand has it to an id that is owned. -/
theorem ResAt.owned_of_hand {hand : List TrsRes} (h : ResAt hand s res) (hres : res ∈ hand) :
    (s.ids res).pid ≠ 0 ∧ res.2 < s.maxId res.1 := by
  have hcount := List.count_pos_iff.mpr hres
  have href := h.ref
  have hbit := bit_nonneg (s.ids res).allocated
  have hpid := h.owned_iff.mpr (by omega)
  exact ⟨hpid, h.range hpid⟩

theorem ResState.setIds_self (s : ResState) (res : TrsRes) (ids : TrsResIds) : (s.setIds res ids).ids res = ids :=
  Function.update_self ..

theorem ResState.setIds_of_ne (ids : TrsResIds) (hne : r ≠ res) :
    (s.setIds res ids).ids r = s.ids r := Function.update_of_ne hne ..

open ResState

/-- The put of a reference that the step has in its hand. -/
theorem ResInv.put (h : ResInv [res] s) : ResInv [] (trsResPut s res) := by
  obtain ⟨hpid, hlt⟩ := (h.refs.each res).owned_of_hand (List.mem_singleton_self res)
  have href := (h.refs.each res).ref
  have hpos := (h.refs.each res).owned_iff.mp hpid
  have hbit := bit_nonneg (s.ids res).allocated
  have hhand : [res].count res = 1 := List.count_singleton_self ..
  have hnone {r : TrsRes} (hr : r ≠ res) : ([] : List TrsRes).count r = [res].count r := by
    rw [List.count_nil, List.count_singleton, if_neg (by simpa using hr.symm)]
  unfold trsResPut
  rw [if_neg (by omega), if_neg (by omega)]
  dsimp only
  split_ifs with hlast
  · -- the last reference: the allocation was freed before
    have hfreed : (s.ids res).allocated = false := bit_eq_zero.mp (by omega)
    have hdel : ∀ p : TrsProc, p.pid ≠ 0 → (s.ids res).allocatedBy p = false := by
      intro p hp
      simp only [TrsResIds.allocated, Bool.and_eq_false_iff] at hfreed
      simp only [TrsResIds.allocatedBy, trsIsIdPidMatch, Bool.and_eq_false_iff]
      exact .inr (hfreed.resolve_left (by simpa using hpid))
    constructor
    · have hchange := h.nums.change hlt { s.ids res with ref := (s.ids res).ref - 1, pid := 0 }
        (a := -1) (b := 0) ⟨0, 0⟩ (by simp [TrsResIds.owned, hpid]) fun p hp => by
          rw [hdel p hp, ite_self]
          simp [TrsResIds.allocatedBy, trsIsIdPidMatch, hp.symm]
      refine hchange.congr rfl rfl rfl ?_
      simp [addCurrentIdNum]
    · refine ⟨h.refs.nodup, h.refs.pending, fun r => ?_⟩
      rcases eq_or_ne r res with rfl | hr
      · have hout := (h.refs.each r).out
        have howned : (s.ids r).owned = true := by simpa [TrsResIds.owned] using hpid
        rw [howned, bit_true] at hout
        rw [hfreed, bit_false] at href
        have hid := setIds_self s r
          { s.ids r with ref := (s.ids r).ref - 1, pid := 0 }
        refine ⟨?_, ?_, ?_, fun hne => ?_⟩
        · simp only [addUseNum, hid, List.count_cons_self]
          change (s.out.count r : ℤ) = (s.pending.map Prod.snd).count r +
            (s.returning.count r + 1 : ℕ) + 0
          omega
        · simp only [addUseNum, hid]
          change (s.ids r).ref - 1 = 0 + (s.freeing.count r : ℤ) + s.gets.count r + 0
          omega
        · simp only [addUseNum, hid]
          exact ⟨fun hne => absurd rfl hne, fun hlt => by omega⟩
        · simp only [addUseNum, hid] at hne
          exact absurd rfl hne
      · refine (h.refs.each r).congr rfl (setIds_of_ne _ hr) rfl rfl ?_ rfl rfl (hnone hr)
        exact List.count_cons_of_ne hr.symm
  · refine ⟨h.nums.changeRef hlt _, h.refs.nodup, h.refs.pending, fun r => ?_⟩
    rcases eq_or_ne r res with rfl | hr
    · have hid := setIds_self s r { s.ids r with ref := (s.ids r).ref - 1 }
      refine ⟨?_, ?_, ?_, fun _ => hlt⟩
      · rw [hid]
        exact (h.refs.each r).out
      · rw [hid]
        change (s.ids r).ref - 1 = bit (s.ids r).allocated + s.freeing.count r + s.gets.count r + 0
        omega
      · rw [hid]
        exact ⟨fun _ => by dsimp only; omega, fun _ => hpid⟩
    · exact (h.refs.each r).congr rfl (setIds_of_ne _ hr) rfl rfl rfl rfl rfl (hnone hr)

theorem ResInv.fromGets (h : ResInv [] s) (hres : res ∈ s.gets) :
    ResInv [res] { s with gets := s.gets.erase res } := by
  refine ⟨h.nums.congr rfl rfl rfl rfl, h.refs.nodup, h.refs.pending, fun r => ?_⟩
  rcases eq_or_ne r res with rfl | hr
  · refine ⟨(h.refs.each r).out, ?_, (h.refs.each r).owned_iff, (h.refs.each r).range⟩
    have href := (h.refs.each r).ref
    have herase := (List.perm_cons_erase hres).count_eq r
    rw [List.count_cons_self] at herase
    rw [List.count_nil] at href
    change (s.ids r).ref = bit (s.ids r).allocated + s.freeing.count r + (s.gets.erase r).count r +
      [r].count r
    rw [List.count_singleton_self]
    omega
  · refine (h.refs.each r).congr rfl rfl rfl rfl rfl rfl (List.count_erase_of_ne hr) ?_
    rw [List.count_nil, List.count_singleton, if_neg (by simpa using hr.symm)]

theorem ResInv.fromFreeing (h : ResInv [] s) (hres : res ∈ s.freeing) :
    ResInv [res] { s with freeing := s.freeing.erase res } := by
  refine ⟨h.nums.congr rfl rfl rfl rfl, h.refs.nodup, h.refs.pending, fun r => ?_⟩
  rcases eq_or_ne r res with rfl | hr
  · refine ⟨(h.refs.each r).out, ?_, (h.refs.each r).owned_iff, (h.refs.each r).range⟩
    have href := (h.refs.each r).ref
    have herase := (List.perm_cons_erase hres).count_eq r
    rw [List.count_cons_self] at herase
    rw [List.count_nil] at href
    change (s.ids r).ref = bit (s.ids r).allocated + (s.freeing.erase r).count r + s.gets.count r +
      [r].count r
    rw [List.count_singleton_self]
    omega
  · refine (h.refs.each r).congr rfl rfl rfl rfl rfl (List.count_erase_of_ne hr) rfl ?_
    rw [List.count_nil, List.count_singleton, if_neg (by simpa using hr.symm)]

/-- The id of a process that matches is owned, and its allocation not freed. -/
theorem trsIsResPidMatch_spec (hmatch : trsIsResPidMatch s proc res = true)
    (hproc : proc.pid ≠ 0) :
    res.2 < s.maxId res.1 ∧ (s.ids res).pid ≠ 0 ∧ (s.ids res).status = .normal ∧
      (s.ids res).allocatedBy proc = true := by
  simp only [trsIsResPidMatch, Bool.and_eq_true, decide_eq_true_eq] at hmatch
  obtain ⟨hlt, hby⟩ := hmatch
  have hby' := hby
  simp only [trsIsIdPidMatch, Bool.and_eq_true, decide_eq_true_eq] at hby'
  exact ⟨hlt, hby'.1.1 ▸ hproc, hby'.2, hby⟩

/-- An id has one owner. -/
theorem TrsResIds.allocatedBy_iff {ids : TrsResIds} (h : ids.allocatedBy proc = true)
    (p : TrsProc) : ids.allocatedBy p = decide (p = proc) := by
  simp only [allocatedBy, trsIsIdPidMatch, Bool.and_eq_true, decide_eq_true_eq] at h
  obtain ⟨⟨hpid, htask⟩, hstatus⟩ := h
  rw [Bool.eq_iff_iff]
  simp only [allocatedBy, trsIsIdPidMatch, Bool.and_eq_true, decide_eq_true_eq, hpid, htask,
    hstatus]
  constructor
  · rintro ⟨⟨hp, ht⟩, -⟩
    cases p
    cases proc
    simp_all
  · rintro rfl
    exact ⟨⟨rfl, rfl⟩, trivial⟩

theorem ResInv.get (h : ResInv [] s) (hproc : proc.pid ≠ 0) (hget : trsResGet s proc res = some t) :
    ResInv [] { t with gets := res :: t.gets } := by
  simp only [trsResGet, Option.ite_none_right_eq_some, Option.some.injEq] at hget
  obtain ⟨hmatch, rfl⟩ := hget
  obtain ⟨hlt, hpid, -, -⟩ := trsIsResPidMatch_spec hmatch hproc
  refine ⟨(h.nums.changeRef hlt _).congr rfl rfl rfl rfl, h.refs.nodup, h.refs.pending,
    fun r => ?_⟩
  rcases eq_or_ne r res with rfl | hr
  · have href := (h.refs.each r).ref
    have hpos := (h.refs.each r).owned_iff.mp hpid
    have hid := setIds_self s r { s.ids r with ref := (s.ids r).ref + 1 }
    refine ⟨?_, ?_, ?_, fun _ => hlt⟩
    · simp only [hid]
      exact (h.refs.each r).out
    · simp only [hid]
      change (s.ids r).ref + 1 = bit (s.ids r).allocated + s.freeing.count r +
        (r :: s.gets).count r + _
      rw [List.count_cons_self]
      push_cast
      omega
    · simp only [hid]
      exact ⟨fun _ => by omega, fun _ => hpid⟩
  · exact (h.refs.each r).congr rfl (setIds_of_ne _ hr) rfl rfl rfl rfl
      (List.count_cons_of_ne hr.symm) rfl

theorem ResInv.free (h : ResInv [] s) (hproc : proc.pid ≠ 0) (res : TrsRes) :
    ResInv [] (trsProcDelRes s proc res) := by
  unfold trsProcDelRes
  split_ifs with hmatch
  · obtain ⟨hlt, hpid, hstatus, hby⟩ := trsIsResPidMatch_spec hmatch hproc
    constructor
    · have hchange := h.nums.change hlt { s.ids res with status := .del } (a := 0) (b := -1) proc
        (by simp [TrsResIds.owned]) fun p _ => by
          rw [TrsResIds.allocatedBy_iff hby p]
          by_cases hp : p = proc <;> simp [TrsResIds.allocatedBy, trsIsIdPidMatch, hp]
      refine hchange.congr rfl rfl ?_ rfl
      simp [addUseNum, addCurrentIdNum]
    · refine ⟨h.refs.nodup, h.refs.pending, fun r => ?_⟩
      rcases eq_or_ne r res with rfl | hr
      · have href := (h.refs.each r).ref
        have hid := setIds_self s r { s.ids r with status := .del }
        have hallocated : (s.ids r).allocated = true := by
          simp [TrsResIds.allocated, hpid, hstatus]
        rw [hallocated, bit_true] at href
        refine ⟨?_, ?_, ?_, fun _ => hlt⟩
        · simp only [addCurrentIdNum, hid]
          exact (h.refs.each r).out
        · simp only [addCurrentIdNum, hid, List.count_cons_self]
          have hdel : TrsResIds.allocated { s.ids r with status := .del } = false := by
            simp [TrsResIds.allocated]
          rw [hdel, bit_false]
          change (s.ids r).ref = 0 + ((s.freeing.count r + 1 : ℕ) : ℤ) + s.gets.count r + _
          push_cast
          omega
        · simp only [addCurrentIdNum, hid]
          exact (h.refs.each r).owned_iff
      · exact (h.refs.each r).congr rfl (setIds_of_ne _ hr) rfl rfl rfl
          (List.count_cons_of_ne hr.symm) rfl rfl
  · exact h

theorem ResInv.alloc (h : ResInv [] s) (hproc : proc.pid ≠ 0) (hres : res ∉ s.out) :
    ResInv [] { s with out := res :: s.out, pending := (proc, res) :: s.pending } := by
  refine ⟨h.nums.congr rfl rfl rfl rfl, List.nodup_cons.mpr ⟨hres, h.refs.nodup⟩,
    fun p hp => ?_, fun r => ?_⟩
  · rcases List.mem_cons.mp hp with rfl | hp
    · exact hproc
    · exact h.refs.pending p hp
  · rcases eq_or_ne r res with rfl | hr
    · refine ⟨?_, (h.refs.each r).ref, (h.refs.each r).owned_iff, (h.refs.each r).range⟩
      have hout := (h.refs.each r).out
      simp only [List.map_cons, List.count_cons_self]
      push_cast
      omega
    · refine (h.refs.each r).congr rfl rfl (List.count_cons_of_ne hr.symm) ?_ rfl rfl rfl rfl
      rw [List.map_cons, List.count_cons_of_ne hr.symm]

/-- The id of a pending allocation is nobody's. -/
theorem ResRefs.of_pending (h : ResRefs [] s) (hmem : (proc, res) ∈ s.pending) :
    s.out.count res = 1 ∧ (s.ids res).owned = false := by
  have hout := (h.each res).out
  have hle : s.out.count res ≤ 1 := List.nodup_iff_count_le_one.mp h.nodup res
  have hpos : 0 < (s.pending.map Prod.snd).count res :=
    List.count_pos_iff.mpr (List.mem_map.mpr ⟨_, hmem, rfl⟩)
  have hbit := bit_nonneg (s.ids res).owned
  exact ⟨by omega, bit_eq_zero.mp (by omega)⟩

theorem ResInv.addRes (h : ResInv [] s) (hmem : (proc, res) ∈ s.pending) :
    ResInv [] (trsProcAddRes { s with pending := s.pending.erase (proc, res) } proc res) := by
  obtain ⟨hone, hfree⟩ := h.refs.of_pending hmem
  have hproc : proc.pid ≠ 0 := h.refs.pending _ hmem
  have hpid : (s.ids res).pid = 0 := by simpa [TrsResIds.owned] using hfree
  have hpending (r : TrsRes) : (s.pending.map Prod.snd).count r =
      (res :: (s.pending.erase (proc, res)).map Prod.snd).count r :=
    ((List.perm_cons_erase hmem).map Prod.snd).count_eq r
  have hsame {r : TrsRes} (hr : r ≠ res) :
      ((s.pending.erase (proc, res)).map Prod.snd).count r = (s.pending.map Prod.snd).count r := by
    rw [hpending, List.count_cons_of_ne hr.symm]
  have hself : (s.pending.map Prod.snd).count res =
      ((s.pending.erase (proc, res)).map Prod.snd).count res + 1 := by
    rw [hpending, List.count_cons_self]
  have hout := (h.refs.each res).out
  rw [hfree, bit_false] at hout
  unfold trsProcAddRes
  split_ifs with hfail
  · refine ⟨h.nums.congr rfl rfl rfl rfl, h.refs.nodup.erase res,
      fun p hp => h.refs.pending p (List.mem_of_mem_erase hp), fun r => ?_⟩
    rcases eq_or_ne r res with rfl | hr
    · refine ⟨?_, (h.refs.each r).ref, (h.refs.each r).owned_iff, (h.refs.each r).range⟩
      dsimp only
      rw [hfree, bit_false, List.count_erase_self, hone]
      omega
    · exact (h.refs.each r).congr rfl rfl (List.count_erase_of_ne hr) (hsame hr) rfl rfl rfl rfl
  · have hlt : res.2 < s.maxId res.1 := by
      rcases not_or.mp hfail with ⟨hlt, -⟩
      simpa using hlt
    have href := (h.refs.each res).ref
    have hzero : ¬ 0 < (s.ids res).ref := fun hpos => (h.refs.each res).owned_iff.mpr hpos hpid
    have hnot : (s.ids res).allocated = false := by simp [TrsResIds.allocated, hpid]
    rw [hnot, bit_false, List.count_nil] at href
    constructor
    · have hnums : ResNums { s with pending := s.pending.erase (proc, res) } :=
        h.nums.congr rfl rfl rfl rfl
      refine hnums.change hlt _ proc ?_ fun p hp => ?_
      · simp [TrsResIds.owned, hpid, hproc]
      · have hold : (s.ids res).allocatedBy p = false := by
          simp [TrsResIds.allocatedBy, trsIsIdPidMatch, hpid, hp.symm]
        have hnew : TrsResIds.allocatedBy proc
            { status := .normal, taskId := proc.taskId, pid := proc.pid, ref := 1 } = true := by
          simp [TrsResIds.allocatedBy, trsIsIdPidMatch]
        rw [hold, TrsResIds.allocatedBy_iff hnew p]
        by_cases hp : p = proc <;> simp [hp]
    · refine ⟨h.refs.nodup, fun p hp => h.refs.pending p (List.mem_of_mem_erase hp), fun r => ?_⟩
      rcases eq_or_ne r res with rfl | hr
      · have hid := setIds_self { s with pending := s.pending.erase (proc, r) } r
          { status := .normal, taskId := proc.taskId, pid := proc.pid, ref := 1 }
        refine ⟨?_, ?_, ?_, fun _ => hlt⟩
        · simp only [addCurrentIdNum, addUseNum, hid]
          have howned : TrsResIds.owned
              { status := .normal, taskId := proc.taskId, pid := proc.pid, ref := 1 } = true := by
            simpa [TrsResIds.owned] using hproc
          rw [howned, bit_true]
          change (s.out.count r : ℤ) = ((s.pending.erase (proc, r)).map Prod.snd).count r +
            s.returning.count r + 1
          omega
        · simp only [addCurrentIdNum, addUseNum, hid]
          have hallocated : TrsResIds.allocated
              { status := .normal, taskId := proc.taskId, pid := proc.pid, ref := 1 } = true := by
            simpa [TrsResIds.allocated] using hproc
          rw [hallocated, bit_true, List.count_nil]
          change (1 : ℤ) = 1 + s.freeing.count r + s.gets.count r + 0
          omega
        · simp only [addCurrentIdNum, addUseNum, hid]
          exact ⟨fun _ => Int.one_pos, fun _ => hproc⟩
      · exact (h.refs.each r).congr rfl (setIds_of_ne _ hr) rfl (hsame hr) rfl rfl rfl rfl

theorem ResInv.giveBack (h : ResInv [] s) (hres : res ∈ s.returning) :
    ResInv [] { s with returning := s.returning.erase res, out := s.out.erase res } := by
  refine ⟨h.nums.congr rfl rfl rfl rfl, h.refs.nodup.erase res, h.refs.pending, fun r => ?_⟩
  rcases eq_or_ne r res with rfl | hr
  · refine ⟨?_, (h.refs.each r).ref, (h.refs.each r).owned_iff, (h.refs.each r).range⟩
    have hout := (h.refs.each r).out
    have hle : s.out.count r ≤ 1 := List.nodup_iff_count_le_one.mp h.refs.nodup r
    have hpos := List.count_pos_iff.mpr hres
    have hbit := bit_nonneg (s.ids r).owned
    simp only [List.count_erase_self]
    omega
  · exact (h.refs.each r).congr rfl rfl (List.count_erase_of_ne hr) rfl
      (List.count_erase_of_ne hr) rfl rfl rfl

theorem ResInv.init (maxId : ℕ → ℕ) : ResInv [] (resInit maxId) := by
  refine ⟨⟨fun ty => ?_, fun p ty hp => ?_⟩, List.nodup_nil, by simp [resInit], fun r => ?_⟩
  · simp [resInit, idNum, TrsResIds.owned]
  · simp [resInit, idNum, TrsResIds.allocatedBy, trsIsIdPidMatch, hp.symm]
  · refine ⟨?_, ?_, ?_, ?_⟩ <;> simp [resInit, TrsResIds.owned, TrsResIds.allocated]

theorem ResInv.step (h : ResInv [] s) {a : ResOp} (hstep : resStep s a = some t) :
    ResInv [] t := by
  cases a with
  | alloc proc res notice =>
      simp only [resStep, Option.ite_none_right_eq_some] at hstep
      obtain ⟨⟨hproc, hres⟩, hstep⟩ := hstep
      split_ifs at hstep
      · exact Option.some.inj hstep ▸ h.alloc hproc hres
      · exact Option.some.inj hstep ▸ h
  | addRes proc res =>
      simp only [resStep, Option.ite_none_right_eq_some, Option.some.injEq] at hstep
      obtain ⟨hmem, rfl⟩ := hstep
      exact h.addRes hmem
  | free proc res =>
      simp only [resStep, Option.ite_none_right_eq_some, Option.some.injEq] at hstep
      obtain ⟨hproc, rfl⟩ := hstep
      exact h.free hproc res
  | freePut res =>
      simp only [resStep, Option.ite_none_right_eq_some, Option.some.injEq] at hstep
      obtain ⟨hres, rfl⟩ := hstep
      exact (h.fromFreeing hres).put
  | get proc res =>
      simp only [resStep, Option.ite_none_right_eq_some] at hstep
      obtain ⟨hproc, hstep⟩ := hstep
      split_ifs at hstep
      · exact Option.some.inj hstep ▸ h
      · split at hstep
        · exact Option.some.inj hstep ▸ h
        · next u hget => exact Option.some.inj hstep ▸ h.get hproc hget
  | put res =>
      simp only [resStep, Option.ite_none_right_eq_some, Option.some.injEq] at hstep
      obtain ⟨hres, rfl⟩ := hstep
      exact (h.fromGets hres).put
  | giveBack res =>
      simp only [resStep, Option.ite_none_right_eq_some, Option.some.injEq] at hstep
      obtain ⟨hres, rfl⟩ := hstep
      exact h.giveBack hres

/-- What the counters promise.  `useNum` counts the owned ids and the counter
of a process the ids that it allocated and did not free; an owned id has one
reference for its allocation, until the free of it put it, and one for each
get; an id goes back once, when its last reference was dropped, and no id that
is referred to is on its way back or with the allocator. -/
structure ResCounted (s : ResState) : Prop where
  useNum : ∀ ty, s.useNum ty = s.idNum TrsResIds.owned ty
  currentIdNum : ∀ proc ty, proc.pid ≠ 0 →
    s.currentIdNum proc ty = s.idNum (TrsResIds.allocatedBy proc) ty
  ref : ∀ r, (s.ids r).ref = bit (s.ids r).allocated + s.freeing.count r + s.gets.count r
  owned_iff : ∀ r, (s.ids r).pid ≠ 0 ↔ 0 < (s.ids r).ref
  once : ∀ r, s.returning.count r ≤ 1
  returning : ∀ r ∈ s.returning, (s.ids r).ref = 0 ∧ r ∈ s.out
  referred : ∀ r, 0 < (s.ids r).ref → r ∈ s.out ∧ r ∉ s.returning ∧ r ∉ s.pending.map Prod.snd
  dropped : ∀ r ∈ s.out, (s.ids r).ref = 0 → r ∈ s.returning ∨ r ∈ s.pending.map Prod.snd

theorem ResRefs.owned_eq (h : ResRefs [] s) (r : TrsRes) :
    (s.ids r).owned = decide (0 < (s.ids r).ref) := by
  rw [Bool.eq_iff_iff, decide_eq_true_iff, ← (h.each r).owned_iff]
  simp [TrsResIds.owned]

theorem ResInv.of_reach (h : resMachine.Reach s) : ResInv [] s := by
  refine h.invariant (fun s hs => ?_) fun s a t hs _ hstep => hs.step hstep
  obtain ⟨maxId, rfl⟩ := hs
  exact .init maxId

theorem res_counted (h : resMachine.Reach s) : ResCounted s := by
  have hinv : ResInv [] s := .of_reach h
  have hle (r : TrsRes) : s.out.count r ≤ 1 :=
    List.nodup_iff_count_le_one.mp hinv.refs.nodup r
  have hout (r : TrsRes) := (hinv.refs.each r).out
  have hbit (r : TrsRes) := bit_nonneg (s.ids r).owned
  have href (r : TrsRes) : (s.ids r).ref =
      bit (s.ids r).allocated + s.freeing.count r + s.gets.count r := by
    have href := (hinv.refs.each r).ref
    rw [List.count_nil] at href
    omega
  have hnonneg (r : TrsRes) : 0 ≤ (s.ids r).ref := by
    have hallocated := bit_nonneg (s.ids r).allocated
    have hr := href r
    omega
  refine ⟨hinv.nums.useNum, hinv.nums.currentIdNum, href, fun r => (hinv.refs.each r).owned_iff,
    fun r => ?_, fun r hr => ?_, fun r hr => ?_, fun r hr hzero => ?_⟩
  · have hor := hout r
    have hler := hle r
    have hbr := hbit r
    omega
  · have hor := hout r
    have hler := hle r
    have hbr := hbit r
    have hpos := List.count_pos_iff.mpr hr
    have hnot : (s.ids r).owned = false := bit_eq_zero.mp (by omega)
    rw [hinv.refs.owned_eq, decide_eq_false_iff_not] at hnot
    exact ⟨by have := hnonneg r; omega, List.count_pos_iff.mp (by omega)⟩
  · have howned : (s.ids r).owned = true := by
      rw [hinv.refs.owned_eq, decide_eq_true_iff]
      exact hr
    have hor := hout r
    have hler := hle r
    rw [howned, bit_true] at hor
    exact ⟨List.count_pos_iff.mp (by omega), List.count_eq_zero.mp (by omega),
      List.count_eq_zero.mp (by omega)⟩
  · have hnot : (s.ids r).owned = false := by
      rw [hinv.refs.owned_eq, decide_eq_false_iff_not]
      omega
    have hor := hout r
    have hpos := List.count_pos_iff.mpr hr
    rw [hnot, bit_false] at hor
    rcases Nat.eq_zero_or_pos (s.returning.count r) with hno | hyes
    · exact .inr (List.count_pos_iff.mp (by omega))
    · exact .inl (List.count_pos_iff.mp hyes)

/-- An id is freed while another process holds a get, which is put later. -/
def latePutRun : List ResOp :=
  [.alloc ⟨1, 0⟩ (2, 3) true, .addRes ⟨1, 0⟩ (2, 3), .get ⟨1, 0⟩ (2, 3), .free ⟨1, 0⟩ (2, 3),
    .freePut (2, 3), .put (2, 3), .giveBack (2, 3)]

theorem res_counted_late_put :
    ResCounted (resMachine.final (resInit fun _ => 8) latePutRun) ∧
      (resMachine.final (resInit fun _ => 8) latePutRun).out = [] :=
  ⟨res_counted (Machine.Reach.final (.start ⟨_, rfl⟩) (by decide +kernel)), by decide +kernel⟩

end OpiaiKernel.Trs
