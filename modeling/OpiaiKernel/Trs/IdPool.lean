import OpiaiKernel.Lib.Machine
import Mathlib.Data.List.Nodup
import Mathlib.Data.Nat.Notation
import Mathlib.Tactic.SplitIfs

/-!
# The pool of ids with a backing pool

A pool keeps ids of a backing pool on a list and hands them out.  It gets ids in
batches when the list is empty, and gives the ids of the list back in batches at
a flush.  An id that cannot go on the list is given back alone.

The functions are translated from `trs_id.c`.  The backing pool answers with any
ids that it has, or fails, and so does each allocation of a node.  Next to the
pool there are the ids that the callers hold, all the ids that ever came from the
backing pool, and the ones that it got back since.
-/

namespace OpiaiKernel.Trs.IdPool

/-- `struct trs_id_pool` of a type with a backing pool. -/
structure TrsIdPool where
  idStart : ℕ
  idEnd : ℕ
  idNum : ℕ
  batchNum : ℕ
  split : ℕ
  isNonCacheType : Bool
  isLocalType : Bool
  head : List ℕ
  allocatableNum : ℕ
  allocNum : ℕ
  held : List ℕ
  obtained : List ℕ
  given : List ℕ

/-- The ids of a batch, each with the outcome of its node; `none` is a failure of the
backing pool. -/
abbrev Answer := Option (List (ℕ × Bool))

variable (s : TrsIdPool)

def trsIdPoolRangeCheck (id : ℕ) : Bool := s.idStart ≤ id && id < s.idEnd

/-- `trs_id_pool_add_node` with a node. -/
def trsIdPoolAddNode (id : ℕ) : TrsIdPool :=
  { s with
    head := if id < s.split then id :: s.head else s.head ++ [id]
    allocatableNum := s.allocatableNum + 1 }

/-- The ids come from the backing pool. -/
def TrsIdPool.obtain (ids : List ℕ) : TrsIdPool :=
  { s with obtained := ids ++ s.obtained, given := s.given.filter fun id => id ∉ ids }

/-- The `free_batch` of the backing pool. -/
def freeBatch (ok : Bool) (ids : List ℕ) : TrsIdPool :=
  if ok then { s with given := ids ++ s.given } else s

/-- The batches that `trs_id_pool_free_batch` takes from the list, with the answer to
each. -/
def trsIdPoolFreeBatch (s : TrsIdPool) : List Bool → Option TrsIdPool
  | [] => if s.allocatableNum = 0 then some s else none
  | ok :: oks =>
    if s.allocatableNum = 0 then none
    else
      let batchNum := min s.allocatableNum s.batchNum
      let t := freeBatch
        { s with head := s.head.drop batchNum, allocatableNum := s.allocatableNum - batchNum }
        ok (s.head.take batchNum)
      if ok then trsIdPoolFreeBatch t oks else if oks = [] then some t else none

/-- The loop of `trs_id_pool_alloc_batch`; an id out of the range is passed over. -/
def addBatch (freeOk : Bool) (s : TrsIdPool) : List (ℕ × Bool) → TrsIdPool
  | [] => s
  | (id, node) :: rest =>
    if trsIdPoolRangeCheck s id then
      if node then addBatch freeOk (trsIdPoolAddNode s id) rest
      else freeBatch s freeOk (id :: rest.map Prod.fst)
    else addBatch freeOk s rest

/-- Whether `trs_id_pool_alloc_batch` asks the backing pool. -/
def asksBatch : Bool := s.idNum ≠ s.allocNum && 1 < s.batchNum

def trsIdPoolAllocBatch (answer : Answer) (freeOk : Bool) : TrsIdPool :=
  if asksBatch s then
    match answer with
    | none => s
    | some ids =>
      let t := s.obtain (ids.map Prod.fst)
      if s.batchNum < ids.length then t else addBatch freeOk t ids
  else s

/-- `_trs_id_pool_alloc_one_id`, and the id is handed out. -/
def trsIdPoolAllocOneId : TrsIdPool :=
  match s.head with
  | [] => s
  | id :: rest =>
    { s with
      head := rest
      allocatableNum := s.allocatableNum - 1
      held := id :: s.held
      allocNum := s.allocNum + 1 }

def trsIdAllocCache (answer : Answer) (freeOk : Bool) : TrsIdPool :=
  if s.allocatableNum = 0 then
    let t := trsIdPoolAllocBatch s answer freeOk
    if t.allocatableNum = 0 then t else trsIdPoolAllocOneId t
  else trsIdPoolAllocOneId s

def trsIdAllocNonCache (answer : Answer) : TrsIdPool :=
  match answer with
  | none => s
  | some ids =>
    let t := s.obtain (ids.map Prod.fst)
    if s.batchNum < ids.length then t
    else { t with held := (ids.map Prod.fst).take 1 ++ t.held, allocNum := t.allocNum + 1 }

def trsIdPoolAlloc (answer : Answer) (freeOk : Bool) : TrsIdPool :=
  if s.isNonCacheType then trsIdAllocNonCache s answer else trsIdAllocCache s answer freeOk

/-- The caller gives the id up. -/
def TrsIdPool.release (id : ℕ) : TrsIdPool :=
  { s with held := s.held.erase id, allocNum := s.allocNum - 1 }

def trsIdFreeNonCache (id : ℕ) (freeOk : Bool) : TrsIdPool :=
  if freeOk then freeBatch (s.release id) true [id] else s

def trsIdFreeCache (id : ℕ) (node freeOk : Bool) : TrsIdPool :=
  if node then trsIdPoolAddNode (s.release id) id
  else if s.isLocalType then s
  else trsIdFreeNonCache s id freeOk

def trsIdPoolFree (id : ℕ) (node freeOk : Bool) : TrsIdPool :=
  if trsIdPoolRangeCheck s id then
    if s.isNonCacheType then trsIdFreeNonCache s id freeOk else trsIdFreeCache s id node freeOk
  else s

inductive IdOp
  | alloc (answer : Answer) (freeOk : Bool)
  | free (id : ℕ) (node freeOk : Bool)
  | flush (oks : List Bool)

/-- The backing pool has the ids. -/
def backingHas (ids : List ℕ) : Bool :=
  ids.Nodup && ids.all fun id => id ∉ s.obtained || id ∈ s.given

def answerIds : Answer → List ℕ
  | none => []
  | some ids => ids.map Prod.fst

def idStep (s : TrsIdPool) : IdOp → Option TrsIdPool
  | .alloc answer freeOk =>
      if backingHas s (answerIds answer) then some (trsIdPoolAlloc s answer freeOk) else none
  | .free id node freeOk => if id ∈ s.held then some (trsIdPoolFree s id node freeOk) else none
  | .flush oks => trsIdPoolFreeBatch s oks

/-- A new pool; `trs_id_pool_create` refuses a batch of no ids. -/
def NewPool (s : TrsIdPool) : Prop :=
  0 < s.batchNum ∧ s.head = [] ∧ s.allocatableNum = 0 ∧ s.allocNum = 0 ∧ s.held = [] ∧
    s.obtained = [] ∧ s.given = []

def idMachine : Machine TrsIdPool IdOp where
  init := NewPool
  step := idStep

/-! ### Where the ids are -/

/-- Each id that came from the backing pool is on the list, held, or given back, and
in one of these places once; the counters are the numbers of the ids on the list and
of the held ones. -/
structure Conserved (s : TrsIdPool) : Prop where
  somewhere : ∀ id, id ∈ s.obtained ↔ id ∈ s.head ∨ id ∈ s.held ∨ id ∈ s.given
  nodup : (s.head ++ (s.held ++ s.given)).Nodup
  allocatableNum : s.allocatableNum = s.head.length
  allocNum : s.allocNum = s.held.length

/-- The places of the ids, some of which the operation has in its hand. -/
def places (hand : List ℕ) (s : TrsIdPool) : List ℕ := hand ++ (s.head ++ (s.held ++ s.given))

structure IdInv (hand : List ℕ) (s : TrsIdPool) : Prop where
  somewhere : ∀ id, id ∈ s.obtained ↔ id ∈ places hand s
  nodup : (places hand s).Nodup
  allocatableNum : s.allocatableNum = s.head.length
  allocNum : s.allocNum = s.held.length
  batchNum : 0 < s.batchNum

variable {s} {t : TrsIdPool} {hand ids : List ℕ} {id : ℕ}

namespace IdInv

theorem conserved (h : IdInv [] s) : Conserved s where
  somewhere := by simpa [places] using h.somewhere
  nodup := h.nodup
  allocatableNum := h.allocatableNum
  allocNum := h.allocNum

/-- Ids go from one place to another. -/
theorem move {hand' : List ℕ} (h : IdInv hand s) (hplaces : (places hand' t).Perm (places hand s))
    (hobtained : t.obtained = s.obtained) (hhead : t.allocatableNum = t.head.length)
    (hheld : t.allocNum = t.held.length) (hbatch : t.batchNum = s.batchNum) : IdInv hand' t where
  somewhere := fun id => by rw [hobtained, h.somewhere, hplaces.mem_iff]
  nodup := hplaces.nodup_iff.mpr h.nodup
  allocatableNum := hhead
  allocNum := hheld
  batchNum := hbatch ▸ h.batchNum

/-- The backing pool hands out ids that it has. -/
theorem obtain (h : IdInv [] s) (hhas : backingHas s ids = true) : IdInv ids (s.obtain ids) := by
  simp only [backingHas, Bool.and_eq_true, decide_eq_true_eq, List.all_eq_true,
    Bool.or_eq_true] at hhas
  obtain ⟨hids, hnew⟩ := hhas
  have nodup := h.nodup
  have somewhere := h.somewhere
  simp only [places, List.nil_append, List.mem_append] at nodup somewhere
  simp only [List.nodup_append, List.mem_append] at nodup
  obtain ⟨hhead, ⟨hheld, hgiven, hheldGiven⟩, hheadRest⟩ := nodup
  -- an id that the backing pool has is not on the list and not held
  have notHead : ∀ id ∈ ids, id ∉ s.head := by
    intro id hid hmem
    rcases hnew id hid with hno | hback
    · exact hno ((somewhere id).mpr (.inl hmem))
    · exact hheadRest id hmem id (.inr hback) rfl
  have notHeld : ∀ id ∈ ids, id ∉ s.held := by
    intro id hid hmem
    rcases hnew id hid with hno | hback
    · exact hno ((somewhere id).mpr (.inr (.inl hmem)))
    · exact hheldGiven id hmem id hback rfl
  refine ⟨fun id => ?_, ?_, h.allocatableNum, h.allocNum, h.batchNum⟩
  · simp only [TrsIdPool.obtain, places, List.mem_append, List.mem_filter, decide_eq_true_eq,
      somewhere]
    tauto
  · simp only [places, TrsIdPool.obtain, List.nodup_append, List.mem_append, List.mem_filter,
      decide_eq_true_eq]
    refine ⟨hids, ⟨hhead, ⟨hheld, hgiven.filter _, ?_⟩, ?_⟩, ?_⟩
    · exact fun a ha b hb => hheldGiven a ha b hb.1
    · exact fun a ha b hb => hheadRest a ha b (hb.imp_right And.left)
    · rintro a ha b (hb | hb | hb) rfl
      · exact notHead a ha hb
      · exact notHeld a ha hb
      · exact hb.2 ha

/-- An id goes on the list. -/
theorem addNode (h : IdInv (id :: hand) s) : IdInv hand (trsIdPoolAddNode s id) := by
  refine h.move ?_ rfl ?_ h.allocNum rfl
  · rw [List.perm_iff_count]
    intro a
    simp only [places, trsIdPoolAddNode]
    split_ifs <;> simp only [List.count_append, List.count_cons, List.count_nil] <;> omega
  · have hlen := h.allocatableNum
    simp only [trsIdPoolAddNode]
    split_ifs <;> simp [hlen]

/-- Ids are given back. -/
theorem give (h : IdInv (ids ++ hand) s) : IdInv hand (freeBatch s true ids) := by
  refine h.move ?_ rfl h.allocatableNum h.allocNum rfl
  rw [List.perm_iff_count]
  intro a
  simp only [places, freeBatch, if_true, List.count_append]
  omega

/-- The first ids of the list are taken. -/
theorem take (h : IdInv [] s) (n : ℕ) (hn : n ≤ s.allocatableNum) :
    IdInv (s.head.take n) { s with
      head := s.head.drop n
      allocatableNum := s.allocatableNum - n } := by
  have hlen := h.allocatableNum
  refine h.move ?_ rfl ?_ h.allocNum rfl
  · simp only [places, List.nil_append]
    rw [← List.append_assoc, List.take_append_drop]
  · simp only [List.length_drop]
    omega

/-- The caller gives an id up. -/
theorem release (h : IdInv [] s) (hid : id ∈ s.held) : IdInv [id] (s.release id) := by
  have hlen := h.allocNum
  refine h.move ?_ rfl h.allocatableNum ?_ rfl
  · rw [List.perm_iff_count]
    intro a
    have herase := (List.perm_cons_erase hid).count_eq a
    simp only [places, TrsIdPool.release, List.count_append, List.count_cons,
      List.count_nil] at herase ⊢
    omega
  · simp only [TrsIdPool.release, List.length_erase_of_mem hid]
    omega

theorem allocOneId (h : IdInv [] s) : IdInv [] (trsIdPoolAllocOneId s) := by
  unfold trsIdPoolAllocOneId
  split
  · exact h
  · next id rest hhead =>
    have hlen := h.allocatableNum
    have hnum := h.allocNum
    rw [hhead, List.length_cons] at hlen
    refine h.move ?_ rfl (by dsimp only; omega) (by simp [hnum]) rfl
    rw [List.perm_iff_count]
    intro a
    simp only [places, hhead, List.count_append, List.count_cons, List.count_nil]
    omega

end IdInv

/-! ### The condition -/

/-- The ids of a batch are in the range up to the one without a node, and the rest is
given back. -/
def batchKept (freeOk : Bool) (s : TrsIdPool) : List (ℕ × Bool) → Bool
  | [] => true
  | (id, node) :: rest =>
    trsIdPoolRangeCheck s id && if node then batchKept freeOk s rest else freeOk

/-- No flush fails, and the backing pool answers an allocation with as many ids as it
was asked for at most, in the range of the pool, or takes them back. -/
def Keeps (s : TrsIdPool) : IdOp → Prop
  | .alloc none _ => True
  | .alloc (some ids) freeOk =>
      if s.isNonCacheType then ids.length = 1
      else s.allocatableNum = 0 → asksBatch s = true →
        ids.length ≤ s.batchNum ∧ batchKept freeOk s ids = true
  | .free _ _ _ => True
  | .flush oks => ∀ ok ∈ oks, ok = true

instance : ∀ op, Decidable (Keeps s op)
  | .alloc none _ => isTrue trivial
  | .alloc (some ids) freeOk => inferInstanceAs (Decidable (if s.isNonCacheType = true then
      ids.length = 1 else s.allocatableNum = 0 → asksBatch s = true →
        ids.length ≤ s.batchNum ∧ batchKept freeOk s ids = true))
  | .free _ _ _ => isTrue trivial
  | .flush oks => inferInstanceAs (Decidable (∀ ok ∈ oks, ok = true))

theorem batchKept_congr {freeOk : Bool} (hstart : t.idStart = s.idStart)
    (hend : t.idEnd = s.idEnd) (batch : List (ℕ × Bool)) :
    batchKept freeOk t batch = batchKept freeOk s batch := by
  induction batch with
  | nil => rfl
  | cons p rest ih => simp only [batchKept, trsIdPoolRangeCheck, hstart, hend, ih]

namespace IdInv

theorem addBatch {freeOk : Bool} {batch : List (ℕ × Bool)} (h : IdInv (batch.map Prod.fst) s)
    (hkept : batchKept freeOk s batch = true) : IdInv [] (addBatch freeOk s batch) := by
  induction batch generalizing s with
  | nil => exact h
  | cons p rest ih =>
    obtain ⟨id, node⟩ := p
    rw [batchKept, Bool.and_eq_true] at hkept
    obtain ⟨hrange, hkept⟩ := hkept
    rw [IdPool.addBatch, if_pos hrange]
    cases node with
    | true =>
      have same : batchKept freeOk (trsIdPoolAddNode s id) rest = batchKept freeOk s rest :=
        batchKept_congr (t := trsIdPoolAddNode s id) (s := s) rfl rfl rest
      exact ih h.addNode (same.trans hkept)
    | false =>
      have hok : freeOk = true := hkept
      rw [hok]
      exact give (by simpa using h)

theorem allocBatch {answer : Answer} {freeOk : Bool} (h : IdInv [] s)
    (hhas : backingHas s (answerIds answer) = true)
    (hkeep : ∀ batch, answer = some batch → asksBatch s = true →
      batch.length ≤ s.batchNum ∧ batchKept freeOk s batch = true) :
    IdInv [] (trsIdPoolAllocBatch s answer freeOk) := by
  unfold trsIdPoolAllocBatch
  split
  · next hasks =>
    cases answer with
    | none => exact h
    | some batch =>
      obtain ⟨hlen, hkept⟩ := hkeep batch rfl hasks
      dsimp only
      rw [if_neg (by omega)]
      have same : batchKept freeOk (s.obtain (batch.map Prod.fst)) batch =
          batchKept freeOk s batch := batchKept_congr (t := s.obtain _) (s := s) rfl rfl batch
      exact (h.obtain hhas).addBatch (same.trans hkept)
  · exact h

theorem alloc {answer : Answer} {freeOk : Bool} (h : IdInv [] s)
    (hhas : backingHas s (answerIds answer) = true) (hkeep : Keeps s (.alloc answer freeOk)) :
    IdInv [] (trsIdPoolAlloc s answer freeOk) := by
  unfold trsIdPoolAlloc
  split
  · next hnon =>
    cases answer with
    | none => exact h
    | some batch =>
      have hone : batch.length = 1 := by simpa [Keeps, hnon] using hkeep
      obtain ⟨p, rfl⟩ := List.length_eq_one_iff.mp hone
      have got := h.obtain hhas
      have hbatch := h.batchNum
      simp only [trsIdAllocNonCache, List.length_singleton]
      rw [if_neg (by omega)]
      refine got.move ?_ rfl got.allocatableNum ?_ rfl
      · rw [List.perm_iff_count]
        intro a
        simp only [places, answerIds, List.map_cons, List.map_nil, List.take_succ_cons,
          List.take_zero, List.count_append, List.count_cons, List.count_nil]
        omega
      · have hnum : (s.obtain [p.1]).allocNum = (s.obtain [p.1]).held.length := got.allocNum
        simp only [List.map_cons, List.map_nil, List.take_succ_cons, List.take_zero,
          List.length_append, List.length_singleton, hnum]
        omega
  · next hnon =>
    unfold trsIdAllocCache
    split
    · next hempty =>
      have filled : IdInv [] (trsIdPoolAllocBatch s answer freeOk) := by
        refine h.allocBatch hhas fun batch heq hasks => ?_
        subst heq
        simp only [Keeps, hnon] at hkeep
        exact hkeep hempty hasks
      dsimp only
      split
      · exact filled
      · exact filled.allocOneId
    · exact h.allocOneId

theorem freeNonCache {freeOk : Bool} (h : IdInv [] s) (hid : id ∈ s.held) :
    IdInv [] (trsIdFreeNonCache s id freeOk) := by
  unfold trsIdFreeNonCache
  split
  · exact give (h.release hid)
  · exact h

theorem free {node freeOk : Bool} (h : IdInv [] s) (hid : id ∈ s.held) :
    IdInv [] (trsIdPoolFree s id node freeOk) := by
  unfold trsIdPoolFree
  split
  · split
    · exact h.freeNonCache hid
    · unfold trsIdFreeCache
      split
      · exact (h.release hid).addNode
      · split
        · exact h
        · exact h.freeNonCache hid
  · exact h

/-- A flush gives the batches back one by one. -/
theorem flush {oks : List Bool} (h : IdInv [] s) (hoks : ∀ ok ∈ oks, ok = true)
    (hstep : trsIdPoolFreeBatch s oks = some t) : IdInv [] t := by
  induction oks generalizing s with
  | nil =>
    rw [trsIdPoolFreeBatch] at hstep
    split at hstep
    · exact Option.some.inj hstep ▸ h
    · cases hstep
  | cons ok oks ih =>
    obtain rfl := hoks ok (.head _)
    rw [trsIdPoolFreeBatch] at hstep
    split at hstep
    · cases hstep
    · dsimp only at hstep
      rw [if_pos rfl] at hstep
      refine ih (give ?_) (fun ok hok => hoks ok (.tail _ hok)) hstep
      rw [List.append_nil]
      exact h.take _ (Nat.min_le_left ..)

theorem init (h : NewPool s) : IdInv [] s := by
  obtain ⟨hbatch, hhead, hallocatable, halloc, hheld, hobtained, hgiven⟩ := h
  refine ⟨?_, ?_, ?_, ?_, hbatch⟩ <;> simp [places, *]

theorem step {op : IdOp} (h : IdInv [] s) (hkeep : Keeps s op) (hstep : idStep s op = some t) :
    IdInv [] t := by
  cases op with
  | alloc answer freeOk =>
    simp only [idStep, Option.ite_none_right_eq_some, Option.some.injEq] at hstep
    obtain ⟨hhas, rfl⟩ := hstep
    exact h.alloc hhas hkeep
  | free id node freeOk =>
    simp only [idStep, Option.ite_none_right_eq_some, Option.some.injEq] at hstep
    obtain ⟨hid, rfl⟩ := hstep
    exact h.free hid
  | flush oks => exact h.flush hkeep hstep

end IdInv

/-- In a run whose steps all keep the ids, no id is lost and none is in two places. -/
theorem ids_conserved (h : idMachine.ReachIf Keeps s) : Conserved s := by
  have inv : IdInv [] s :=
    h.invariant (fun _ hs => IdInv.init hs) fun _ _ _ hs hkeep hstep => hs.step hkeep hstep
  exact inv.conserved

/-! ### A run -/

def samplePool : TrsIdPool where
  idStart := 0
  idEnd := 8
  idNum := 8
  batchNum := 3
  split := 4
  isNonCacheType := false
  isLocalType := false
  head := []
  allocatableNum := 0
  allocNum := 0
  held := []
  obtained := []
  given := []

/-- Two ids of a batch of three are handed out, one comes back, and the list is flushed. -/
def sampleRun : List IdOp :=
  [.alloc (some [(0, true), (1, true), (5, true)]) true, .alloc none true, .free 0 true true,
    .flush [true]]

theorem newPool_sample : NewPool samplePool := ⟨by decide, rfl, rfl, rfl, rfl, rfl, rfl⟩

theorem ids_conserved_sample :
    Conserved (idMachine.final samplePool sampleRun) ∧
      (idMachine.final samplePool sampleRun).given = [0, 5] :=
  ⟨ids_conserved (Machine.ReachIf.final (.start newPool_sample) (by decide +kernel)
    (by decide +kernel)), by decide +kernel⟩

/-- The flush of the list fails. -/
def lostRun : List IdOp :=
  [.alloc (some [(0, true), (1, true), (5, true)]) true, .flush [false]]

/-- The ids that the flush took from the list are nowhere. -/
theorem ids_lost :
    (idMachine.run samplePool lostRun).isSome ∧
      ¬ Conserved (idMachine.final samplePool lostRun) := by
  refine ⟨by decide +kernel, fun h => ?_⟩
  have somewhere := (h.somewhere 0).mp (by decide +kernel)
  exact absurd somewhere (by decide +kernel)

end OpiaiKernel.Trs.IdPool
