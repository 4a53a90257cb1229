import OpiaiKernel.Esched.ProcLifetime
import OpiaiKernel.Lib.RefCounted

/-!
# The references to a process context

The counter of a context counts the reference of the hash table and the gets.
The table's reference is counted before the context is linked and after it is
unlinked, so that a context in the table always has it.
-/

namespace OpiaiKernel.Esched

variable {s t : ProcState} {c d : ℕ} {pid : ℤ}

namespace ProcState

/-- The references that a context is counted for. -/
def refs (s : ProcState) : List ℕ :=
  s.procHashTable ++ (s.mng.counted ++ (s.mng.got ++ s.got))

/-- The contexts that were counted down to nothing. -/
def gone (s : ProcState) : List ℕ := s.releasing ++ (s.exiting ++ s.freed)

/-- The contexts that were counted at least once. -/
def known (s : ProcState) (c : ℕ) : Prop := c < s.used ∧ s.mng ≠ .addNew c

def cnt (s : ProcState) (c : ℕ) : ℤ := (s.ctx c).refcnt

theorem addRefcnt_cnt (s : ProcState) (c : ℕ) (n : ℤ) :
    (s.addRefcnt c n).cnt = Function.update s.cnt c (s.cnt c + n) := by
  funext d
  rcases eq_or_ne d c with rfl | hne
  · simp [cnt, addRefcnt, setCtx]
  · simp [cnt, addRefcnt, setCtx, hne]

@[simp] theorem addRefcnt_pid (s : ProcState) (c : ℕ) (n : ℤ) (d : ℕ) :
    ((s.addRefcnt c n).ctx d).pid = (s.ctx d).pid := by
  rcases eq_or_ne d c with rfl | hne
  · simp [addRefcnt, setCtx]
  · simp [addRefcnt, setCtx, hne]

@[simp] theorem addRefcnt_valid (s : ProcState) (c : ℕ) (n : ℤ) (d : ℕ) :
    ((s.addRefcnt c n).ctx d).valid = (s.ctx d).valid := by
  rcases eq_or_ne d c with rfl | hne
  · simp [addRefcnt, setCtx]
  · simp [addRefcnt, setCtx, hne]

end ProcState

open ProcState

/-- The table has one context for a pid.  A context in it is valid unless it is
about to be unlinked, and nobody has the pid of a context that is added. -/
structure ProcTable (s : ProcState) : Prop where
  nodup : s.procHashTable.Nodup
  sole : ∀ c ∈ s.procHashTable, ∀ d ∈ s.procHashTable, (s.ctx c).pid = (s.ctx d).pid → c = d
  valid : ∀ c ∈ s.procHashTable, (s.ctx c).valid = true ∨ s.mng = .delInvalid c
  unlink : ∀ c, s.mng = .delFound c ∨ s.mng = .delInvalid c → c ∈ s.procHashTable
  unlinked : ∀ c, s.mng = .delUnlinked c → c ∉ s.procHashTable
  new : ∀ c, s.mng = .addNew c ∨ s.mng = .addCounted c →
    c < s.used ∧ c ∉ s.procHashTable ∧ (s.ctx c).valid = true ∧ ∀ d ∈ s.procHashTable, (s.ctx d).pid ≠ (s.ctx c).pid

structure ProcInv (s : ProcState) : Prop where
  counted : RefCounted s.cnt s.refs s.gone s.known
  table : ProcTable s

/-- Contexts keep their pid and, in the table, their status; the table and the
mutex stay. -/
theorem ProcTable.same (h : ProcTable s) (htable : t.procHashTable = s.procHashTable)
    (hmng : t.mng = s.mng) (hused : t.used = s.used)
    (hpid : ∀ c, (t.ctx c).pid = (s.ctx c).pid)
    (hvalid : ∀ c, (t.ctx c).valid = (s.ctx c).valid) : ProcTable t := by
  refine ⟨?_, ?_, ?_, ?_, ?_, ?_⟩
  all_goals simp only [htable, hmng, hused, hpid, hvalid]
  exacts [h.nodup, h.sole, h.valid, h.unlink, h.unlinked, h.new]

theorem eschedProcFind_mem (h : eschedProcFind s pid = some c) :
    c ∈ s.procHashTable ∧ (s.ctx c).pid = pid ∧ (s.ctx c).valid = true := by
  obtain ⟨hfind, hvalid⟩ := Option.filter_eq_some_iff.mp h
  exact ⟨List.mem_of_find?_eq_some hfind, by simpa using List.find?_some hfind, hvalid⟩

/-- While nobody is deleting, a pid that is not found is not in the table. -/
theorem ProcTable.absent (h : ProcTable s) (hmng : s.mng = .unlocked)
    (hnone : eschedProcFind s pid = none) : ∀ c ∈ s.procHashTable, (s.ctx c).pid ≠ pid := by
  intro c hc heq
  cases hfind : schedGetProcCtx s pid with
  | none =>
      have hno := List.find?_eq_none.mp hfind c hc
      simp [heq] at hno
  | some d =>
      have hd := List.mem_of_find?_eq_some hfind
      have hvalid : (s.ctx d).valid = true := by
        rcases h.valid d hd with hvalid | hdel
        · exact hvalid
        · rw [hmng] at hdel
          cases hdel
      simp [eschedProcFind, hfind, hvalid] at hnone

theorem ProcState.mem_refs_of_table (hc : c ∈ s.procHashTable) : c ∈ s.refs :=
  List.mem_append_left _ hc

namespace ProcInv

theorem init : ProcInv procInit := by
  refine ⟨⟨?_, ?_, ?_, ?_⟩, ⟨?_, ?_, ?_, ?_, ?_, ?_⟩⟩ <;>
    simp [procInit, refs, gone, known, cnt, ProcMng.counted, ProcMng.got]

end ProcInv

/-- A put of a reference that the rest of the state no longer has. -/
theorem eschedProcPut_counted {refs : List ℕ} (h : RefCounted s.cnt refs s.gone s.known)
    (hrefs : refs.Perm (c :: s.refs)) :
    RefCounted (eschedProcPut s c).cnt (eschedProcPut s c).refs (eschedProcPut s c).gone
      (eschedProcPut s c).known := by
  have hc : c ∈ refs := hrefs.mem_iff.mpr List.mem_cons_self
  have herase : s.refs.Perm (refs.erase c) := by
    have hperm := hrefs.erase c
    rw [List.erase_cons_head] at hperm
    exact hperm.symm
  have hcnt := s.addRefcnt_cnt c (-1)
  have hself : ((s.addRefcnt c (-1)).ctx c).refcnt = s.cnt c - 1 := by
    have hval := congrFun hcnt c
    rw [Function.update_self] at hval
    exact hval
  unfold eschedProcPut
  dsimp only
  rw [hself]
  split_ifs with hpos
  · exact (h.put hc hpos).congr (congrFun hcnt) herase (.refl _) fun _ => Iff.rfl
  · exact (h.putLast hc hpos).congr (congrFun hcnt) herase (.refl _) fun _ => Iff.rfl

theorem eschedProcPut_table (h : ProcTable s) : ProcTable (eschedProcPut s c) := by
  unfold eschedProcPut
  dsimp only
  split_ifs
  · exact h.same rfl rfl rfl (s.addRefcnt_pid c _) (s.addRefcnt_valid c _)
  · exact h.same rfl rfl rfl (s.addRefcnt_pid c _) (s.addRefcnt_valid c _)

/-- The mutex changes hands, or its holder goes on, with the table as it is. -/
theorem ProcTable.setMng (h : ProcTable s) {mng : ProcMng} (hvalid : ∀ c, s.mng ≠ .delInvalid c)
    (hunlink : ∀ c, mng = .delFound c ∨ mng = .delInvalid c → c ∈ s.procHashTable)
    (hunlinked : ∀ c, mng ≠ .delUnlinked c)
    (hnew : ∀ c, mng = .addNew c ∨ mng = .addCounted c → s.mng = .addNew c) :
    ProcTable { s with mng := mng } where
  nodup := h.nodup
  sole := h.sole
  valid d hd := (h.valid d hd).imp_right fun heq => absurd heq (hvalid d)
  unlink := hunlink
  unlinked d hd := absurd hd (hunlinked d)
  new d hd := h.new d (.inl (hnew d hd))

namespace ProcInv

theorem get (h : ProcInv s) (hfind : eschedProcFind s pid = some c) :
    ProcInv { s.addRefcnt c 1 with got := c :: s.got } := by
  obtain ⟨hc, -, -⟩ := eschedProcFind_mem hfind
  refine ⟨?_, h.table.same rfl rfl rfl (s.addRefcnt_pid c 1) (s.addRefcnt_valid c 1)⟩
  refine (h.counted.get (mem_refs_of_table hc)).congr (congrFun (s.addRefcnt_cnt c 1)) ?_
    (.refl _) fun _ => Iff.rfl
  refine List.perm_iff_count.mpr fun d => ?_
  simp only [refs, addRefcnt, setCtx, List.count_append, List.count_cons]
  omega

/-- Someone takes the mutex and finds the context. -/
theorem lockGet (h : ProcInv s) (hmng : s.mng = .unlocked)
    (hfind : eschedProcFind s pid = some c) {mng : ProcMng}
    (hto : mng = .addRepeat c ∨ mng = .delFound c) :
    ProcInv { s.addRefcnt c 1 with mng := mng } := by
  obtain ⟨hc, -, -⟩ := eschedProcFind_mem hfind
  constructor
  · refine (h.counted.get (mem_refs_of_table hc)).congr (congrFun (s.addRefcnt_cnt c 1)) ?_
      (.refl _) fun d => ?_
    · refine List.perm_iff_count.mpr fun d => ?_
      rcases hto with rfl | rfl <;>
        simp only [refs, addRefcnt, setCtx, hmng, ProcMng.counted, ProcMng.got,
          List.count_append, List.count_cons, List.count_nil] <;> omega
    · rcases hto with rfl | rfl <;> simp [known, hmng, addRefcnt, setCtx]
  · have htable : ProcTable (s.addRefcnt c 1) :=
      h.table.same rfl rfl rfl (s.addRefcnt_pid c 1) (s.addRefcnt_valid c 1)
    refine htable.setMng (fun d => ?_) (fun d hd => ?_) (fun d => ?_) fun d hd => ?_
    · simp [addRefcnt, setCtx, hmng]
    · rcases hto with rfl | rfl <;> simp at hd
      exact hd ▸ hc
    · rcases hto with rfl | rfl <;> simp
    · rcases hto with rfl | rfl <;> simp at hd

theorem put (h : ProcInv s) (hc : c ∈ s.got) :
    ProcInv (eschedProcPut { s with got := s.got.erase c } c) := by
  have hperm : s.refs.Perm (c :: ProcState.refs { s with got := s.got.erase c }) := by
    refine List.perm_iff_count.mpr fun d => ?_
    have hgot := (List.perm_cons_erase hc).count_eq d
    simp only [refs, List.count_append, List.count_cons] at hgot ⊢
    omega
  have htable : ProcTable { s with got := s.got.erase c } :=
    h.table.same rfl rfl rfl (fun _ => rfl) fun _ => rfl
  exact ⟨eschedProcPut_counted h.counted hperm, eschedProcPut_table htable⟩

theorem addPut (h : ProcInv s) (hmng : s.mng = .addRepeat c) :
    ProcInv (eschedProcPut { s with mng := .unlocked } c) := by
  have hperm : s.refs.Perm (c :: ProcState.refs { s with mng := .unlocked }) := by
    refine List.perm_iff_count.mpr fun d => ?_
    simp only [refs, hmng, ProcMng.counted, ProcMng.got, List.count_append, List.count_cons,
      List.count_nil]
    omega
  have htable : ProcTable { s with mng := .unlocked } :=
    h.table.setMng (by simp [hmng]) (by simp) (by simp) (by simp)
  have hcounted : RefCounted s.cnt s.refs s.gone (ProcState.known { s with mng := .unlocked }) :=
    h.counted.congr (fun _ => rfl) (.refl _) (.refl _) fun d => by simp [known, hmng]
  exact ⟨eschedProcPut_counted hcounted hperm, eschedProcPut_table htable⟩

theorem notMem_refs (h : ProcInv s) (hc : s.used ≤ c) : c ∉ s.refs := fun hin =>
  absurd (h.counted.inside c hin).1 (by omega)

theorem addNew (h : ProcInv s) (hmng : s.mng = .unlocked)
    (hnone : eschedProcFind s pid = none) :
    ProcInv { s.setCtx s.used { pid := pid, valid := true, refcnt := 0 } with
      used := s.used + 1
      mng := .addNew s.used } := by
  have hold {d : ℕ} (hd : d ∈ s.procHashTable) : d ≠ s.used := by
    rintro rfl
    exact h.notMem_refs (Nat.le_refl _) (mem_refs_of_table hd)
  have hctx {d : ℕ} (hd : d ≠ s.used) :
      (s.setCtx s.used { pid := pid, valid := true, refcnt := 0 }).ctx d = s.ctx d :=
    Function.update_of_ne hd ..
  constructor
  · refine h.counted.congr (fun d => ?_) ?_ (.refl _) fun d => ?_
    · rcases eq_or_ne d s.used with rfl | hne
      · -- nobody had a reference to the context before it was there
        rw [h.counted.count, List.count_eq_zero.mpr (h.notMem_refs (Nat.le_refl _))]
        simp [cnt, setCtx]
      · simp [cnt, setCtx, hne]
    · simp [refs, setCtx, hmng, ProcMng.counted, ProcMng.got]
    · simp only [known, hmng]
      constructor
      · rintro ⟨hlt, hne⟩
        exact ⟨by have : s.used ≠ d := fun heq => hne (heq ▸ rfl); omega, by simp⟩
      · rintro ⟨hlt, -⟩
        exact ⟨by omega, by simpa using (Nat.ne_of_lt hlt).symm⟩
  · refine ⟨h.table.nodup, fun c hc d hd heq => ?_, fun c hc => .inl ?_, fun c hc => ?_,
      fun c hc => ?_, fun c hc => ?_⟩
    · dsimp only at heq
      rw [hctx (hold hc), hctx (hold hd)] at heq
      exact h.table.sole c hc d hd heq
    · dsimp only
      rw [hctx (hold hc)]
      refine (h.table.valid c hc).resolve_right fun hdel => ?_
      rw [hmng] at hdel
      cases hdel
    · simp at hc
    · simp at hc
    · obtain rfl : s.used = c := by simpa using hc
      refine ⟨Nat.lt_succ_self _, fun hin => hold hin rfl, by simp [setCtx], fun d hd => ?_⟩
      dsimp only
      rw [hctx (hold hd)]
      simpa [setCtx] using h.table.absent hmng hnone d hd

theorem addCount (h : ProcInv s) (hmng : s.mng = .addNew c) :
    ProcInv { s.addRefcnt c 1 with mng := .addCounted c } := by
  obtain ⟨hlt, -⟩ := h.table.new c (.inl hmng)
  constructor
  · have hnot : ¬ s.known c := fun hknown => hknown.2 hmng
    refine (h.counted.publish hnot).congr (congrFun (s.addRefcnt_cnt c 1)) ?_ (.refl _)
      fun d => ?_
    · refine List.perm_iff_count.mpr fun d => ?_
      simp only [refs, addRefcnt, setCtx, hmng, ProcMng.counted, ProcMng.got,
        List.count_append, List.count_cons, List.count_nil]
      omega
    · simp only [known, hmng, addRefcnt, setCtx]
      constructor
      · rintro ⟨hd, -⟩
        by_cases heq : d = c
        · exact .inl heq
        · exact .inr ⟨hd, by simpa using fun h => heq h.symm⟩
      · rintro (rfl | ⟨hd, -⟩)
        · exact ⟨hlt, by simp⟩
        · exact ⟨hd, by simp⟩
  · have htable : ProcTable (s.addRefcnt c 1) :=
      h.table.same rfl rfl rfl (s.addRefcnt_pid c 1) (s.addRefcnt_valid c 1)
    refine htable.setMng (fun d => ?_) (by simp) (by simp) fun d hd => ?_
    · simp [addRefcnt, setCtx, hmng]
    · simpa [addRefcnt, setCtx, hmng] using hd

theorem addLink (h : ProcInv s) (hmng : s.mng = .addCounted c) :
    ProcInv { s with procHashTable := c :: s.procHashTable, mng := .unlocked } := by
  obtain ⟨-, hnot, hvalid, hpid⟩ := h.table.new c (.inr hmng)
  constructor
  · refine h.counted.congr (fun _ => rfl) ?_ (.refl _) fun d => by simp [known, hmng]
    refine List.perm_iff_count.mpr fun d => ?_
    simp only [refs, hmng, ProcMng.counted, ProcMng.got, List.count_append, List.count_cons,
      List.count_nil]
    omega
  · refine ⟨List.nodup_cons.mpr ⟨hnot, h.table.nodup⟩, fun d hd e he heq => ?_,
      fun d hd => .inl ?_, by simp, by simp, by simp⟩
    · rcases List.mem_cons.mp hd with hd' | hd' <;> rcases List.mem_cons.mp he with he' | he'
      · rw [hd', he']
      · exact absurd (hd' ▸ heq).symm (hpid e he')
      · exact absurd (he' ▸ heq) (hpid d hd')
      · exact h.table.sole d hd' e he' heq
    · rcases List.mem_cons.mp hd with rfl | hd
      · exact hvalid
      · refine (h.table.valid d hd).resolve_right fun hdel => ?_
        rw [hmng] at hdel
        cases hdel

theorem delMark (h : ProcInv s) (hmng : s.mng = .delFound c) :
    ProcInv { s.setCtx c { s.ctx c with valid := false } with mng := .delInvalid c } := by
  have hc := h.table.unlink c (.inl hmng)
  have hpid (d : ℕ) : ((s.setCtx c { s.ctx c with valid := false }).ctx d).pid =
      (s.ctx d).pid := by
    rcases eq_or_ne d c with rfl | hne
    · simp [setCtx]
    · simp [setCtx, hne]
  constructor
  · refine h.counted.congr (fun d => ?_) ?_ (.refl _) fun d => by simp [known, hmng, setCtx]
    · rcases eq_or_ne d c with rfl | hne
      · simp [cnt, setCtx]
      · simp [cnt, setCtx, hne]
    · simp [refs, setCtx, hmng, ProcMng.counted, ProcMng.got]
  · refine ⟨h.table.nodup, fun d hd e he heq => ?_, fun d hd => ?_, fun d hd => ?_, by simp,
      by simp⟩
    · dsimp only at heq
      rw [hpid, hpid] at heq
      exact h.table.sole d hd e he heq
    · rcases eq_or_ne d c with rfl | hne
      · exact .inr rfl
      · have hvalid := (h.table.valid d hd).resolve_right (by simp [hmng])
        exact .inl (by simpa [setCtx, hne] using hvalid)
    · obtain rfl : c = d := by simpa using hd
      exact hc

theorem delUnlink (h : ProcInv s) (hmng : s.mng = .delInvalid c) :
    ProcInv { s with procHashTable := s.procHashTable.erase c, mng := .delUnlinked c } := by
  have hc := h.table.unlink c (.inr hmng)
  constructor
  · refine h.counted.congr (fun _ => rfl) ?_ (.refl _) fun d => by simp [known, hmng]
    refine List.perm_iff_count.mpr fun d => ?_
    have herase := (List.perm_cons_erase hc).count_eq d
    simp only [refs, hmng, ProcMng.counted, ProcMng.got, List.count_append, List.count_cons,
      List.count_nil] at herase ⊢
    omega
  · refine ⟨h.table.nodup.erase c, fun d hd e he => ?_, fun d hd => .inl ?_, by simp,
      fun d hd => ?_, by simp⟩
    · exact h.table.sole d (List.mem_of_mem_erase hd) e (List.mem_of_mem_erase he)
    · obtain ⟨hne, hin⟩ := (h.table.nodup.mem_erase_iff).mp hd
      refine (h.table.valid d hin).resolve_right fun hdel => hne ?_
      rw [hmng] at hdel
      exact (ProcMng.delInvalid.inj hdel).symm
    · obtain rfl : c = d := by simpa using hd
      exact fun hin => ((h.table.nodup.mem_erase_iff).mp hin).1 rfl

theorem delUncount (h : ProcInv s) (hmng : s.mng = .delUnlinked c) :
    ProcInv { s.addRefcnt c (-1) with mng := .unlocked, got := c :: s.got } := by
  have hc : c ∈ s.refs := by simp [refs, hmng, ProcMng.counted]
  constructor
  · -- the deleting thread has a get besides the reference of the table
    have htwo : 0 < s.cnt c - 1 := by
      have hcount : 2 ≤ s.refs.count c := by
        simp only [refs, hmng, ProcMng.counted, ProcMng.got, List.count_append,
          List.count_cons_self, List.count_nil]
        omega
      rw [h.counted.count]
      omega
    refine (h.counted.put hc htwo).congr (congrFun (s.addRefcnt_cnt c (-1))) ?_ (.refl _)
      fun d => by simp [known, hmng, addRefcnt, setCtx]
    refine List.perm_iff_count.mpr fun d => ?_
    have herase := (List.perm_cons_erase hc).count_eq d
    simp only [refs, hmng, ProcMng.counted, ProcMng.got, addRefcnt, setCtx, List.count_append,
      List.count_cons, List.count_nil] at herase ⊢
    omega
  · have htable : ProcTable (s.addRefcnt c (-1)) :=
      h.table.same rfl rfl rfl (s.addRefcnt_pid c _) (s.addRefcnt_valid c _)
    have hunlocked : ProcTable { s.addRefcnt c (-1) with mng := .unlocked } :=
      htable.setMng (by simp [addRefcnt, setCtx, hmng]) (by simp) (by simp) (by simp)
    exact hunlocked.same rfl rfl rfl (fun _ => rfl) fun _ => rfl

theorem setGone (h : ProcInv s) {releasing exiting freed : List ℕ}
    (hgone : (releasing ++ (exiting ++ freed)).Perm s.gone) :
    ProcInv { s with releasing := releasing, exiting := exiting, freed := freed } :=
  ⟨h.counted.congr (fun _ => rfl) (.refl _) hgone fun _ => Iff.rfl,
    h.table.same rfl rfl rfl (fun _ => rfl) fun _ => rfl⟩

theorem step (h : ProcInv s) {a : ProcOp} (hstep : procStep s a = some t) : ProcInv t := by
  cases a with
  | get pid =>
      simp only [procStep] at hstep
      split at hstep
      · exact Option.some.inj hstep ▸ h
      · next c hfind => exact Option.some.inj hstep ▸ h.get hfind
  | put c =>
      simp only [procStep, Option.ite_none_right_eq_some, Option.some.injEq] at hstep
      obtain ⟨hc, rfl⟩ := hstep
      exact h.put hc
  | add pid mem =>
      simp only [procStep, Option.ite_none_right_eq_some] at hstep
      obtain ⟨hmng, hstep⟩ := hstep
      split at hstep
      · next c hfind => exact Option.some.inj hstep ▸ h.lockGet hmng hfind (.inl rfl)
      · next hnone =>
          split_ifs at hstep
          · exact Option.some.inj hstep ▸ h.addNew hmng hnone
          · exact Option.some.inj hstep ▸ h
  | addPut =>
      simp only [procStep] at hstep
      split at hstep
      · next c hmng => exact Option.some.inj hstep ▸ h.addPut hmng
      · cases hstep
  | addCount =>
      simp only [procStep] at hstep
      split at hstep
      · next c hmng => exact Option.some.inj hstep ▸ h.addCount hmng
      · cases hstep
  | addLink =>
      simp only [procStep] at hstep
      split at hstep
      · next c hmng => exact Option.some.inj hstep ▸ h.addLink hmng
      · cases hstep
  | del pid =>
      simp only [procStep, Option.ite_none_right_eq_some] at hstep
      obtain ⟨hmng, hstep⟩ := hstep
      split at hstep
      · next c hfind => exact Option.some.inj hstep ▸ h.lockGet hmng hfind (.inr rfl)
      · exact Option.some.inj hstep ▸ h
  | delMark =>
      simp only [procStep] at hstep
      split at hstep
      · next c hmng => exact Option.some.inj hstep ▸ h.delMark hmng
      · cases hstep
  | delUnlink =>
      simp only [procStep] at hstep
      split at hstep
      · next c hmng => exact Option.some.inj hstep ▸ h.delUnlink hmng
      · cases hstep
  | delUncount =>
      simp only [procStep] at hstep
      split at hstep
      · next c hmng => exact Option.some.inj hstep ▸ h.delUncount hmng
      · cases hstep
  | freeUnlist c =>
      simp only [procStep, Option.ite_none_right_eq_some, Option.some.injEq] at hstep
      obtain ⟨⟨-, hc⟩, rfl⟩ := hstep
      refine h.setGone (List.perm_iff_count.mpr fun d => ?_)
      have herase := (List.perm_cons_erase hc).count_eq d
      simp only [gone, List.count_append, List.count_cons] at herase ⊢
      omega
  | free c =>
      simp only [procStep, Option.ite_none_right_eq_some, Option.some.injEq] at hstep
      obtain ⟨hc, rfl⟩ := hstep
      refine h.setGone (List.perm_iff_count.mpr fun d => ?_)
      have herase := (List.perm_cons_erase hc).count_eq d
      simp only [gone, List.count_append, List.count_cons] at herase ⊢
      omega

end ProcInv

/-- The gets that are outstanding, by whoever. -/
def ProcState.gets (s : ProcState) : List ℕ := s.mng.got ++ s.got

/-- What the counter promises.  One context of a pid is in the table; a context
is counted for the table, from before it is linked until after it is unlinked,
and for each get; it is freed once, when it is in neither, and no lookup finds
it then. -/
structure ProcLifetime (s : ProcState) : Prop where
  sole : s.procHashTable.Nodup ∧ ∀ c ∈ s.procHashTable, ∀ d ∈ s.procHashTable,
    (s.ctx c).pid = (s.ctx d).pid → c = d
  refcnt_eq : ∀ c, (s.ctx c).refcnt =
    s.procHashTable.count c + s.mng.counted.count c + s.gets.count c
  once : (s.releasing ++ (s.exiting ++ s.freed)).Nodup
  gone_iff : ∀ c, c ∈ s.releasing ++ (s.exiting ++ s.freed) ↔
    (c < s.used ∧ s.mng ≠ .addNew c) ∧
      c ∉ s.procHashTable ∧ c ∉ s.mng.counted ∧ c ∉ s.gets
  lookup : ∀ pid c, eschedProcFind s pid = some c →
    c ∉ s.releasing ++ (s.exiting ++ s.freed)

theorem proc_lifetime (h : procMachine.Reach s) : ProcLifetime s := by
  have hinv : ProcInv s := by
    refine h.invariant (fun s hs => ?_) fun s a t hs _ hstep => hs.step hstep
    rw [show s = procInit from hs]
    exact .init
  refine ⟨⟨hinv.table.nodup, hinv.table.sole⟩, fun c => ?_, hinv.counted.nodup, fun c => ?_,
    fun pid c hfind => ?_⟩
  · have hcount := hinv.counted.count c
    simp only [cnt, refs, List.count_append] at hcount
    simp only [gets, List.count_append]
    push_cast at hcount ⊢
    omega
  · have hiff := hinv.counted.gone_iff c
    simp only [gone, known, refs] at hiff
    rw [hiff]
    simp only [gets, List.mem_append, not_or]
  · exact hinv.counted.notMem_gone (mem_refs_of_table (eschedProcFind_mem hfind).1)

/-- A process is added and deleted, up to the moment at which its context has
left the table and is still counted for it. -/
def unlinkedRun : List ProcOp :=
  [.add 7 true, .addCount, .addLink, .del 7, .delMark, .delUnlink]

theorem unlinked_is_counted :
    ¬ ∀ s, procMachine.Reach s → ∀ c < s.used, c ∉ s.freed →
      (s.ctx c).refcnt = s.procHashTable.count c + s.gets.count c := by
  intro hall
  have hrun : procMachine.Reach (procMachine.final procInit unlinkedRun) :=
    Machine.Reach.final (.start rfl) (by decide +kernel)
  have heq := hall _ hrun 0
  revert heq
  decide +kernel

/-- The context that was deleted is counted down and freed. -/
theorem proc_lifetime_freed :
    ProcLifetime (procMachine.final procInit
        (unlinkedRun ++ [.delUncount, .put 0, .freeUnlist 0, .free 0])) ∧
      (procMachine.final procInit
        (unlinkedRun ++ [.delUncount, .put 0, .freeUnlist 0, .free 0])).freed = [0] :=
  ⟨proc_lifetime (Machine.Reach.final (.start rfl) (by decide +kernel)), by decide +kernel⟩

end OpiaiKernel.Esched
