import OpiaiKernel.Trs.ChanInit
import Mathlib.Algebra.Order.Monoid.Canonical.Defs
import Mathlib.Data.Multiset.OrderedMonoid

/-!
# What the creation of a channel takes

A creation takes the id of the channel, the ids and the memories of its queues,
and a place in the list of an interrupt.  When it fails, what it has taken so far
is given back: each of the parts undoes itself, and the channel is taken apart by
the flags of the parts that are complete.

The functions are translated from `chan_init.c`; the answers of the allocators
and of the device come with the call.  What is taken is counted, so that nothing
is said of which ids an allocator may give.
-/

namespace OpiaiKernel.Trs.ChanResources

def TRS_SQCQ_SLOT_SIZE_MAX : ℕ := 256

def TRS_SQCQ_DEPTH_MAX : ℕ := 65535

def SQE_ALIGN_SIZE : ℕ := 8

def CQE_ALIGN_SIZE : ℕ := 4

inductive Errno
  | einval
  | enomem
  | efault
  | device
  deriving DecidableEq

/-- `struct trs_chan_para`, with the flags that a creation reads. -/
structure ChanPara extends TrsChanPara where
  sqDepth : ℕ
  sqeSize : ℕ
  cqDepth : ℕ
  cqeSize : ℕ

/-- The part of `struct trs_chan_ts_inst` that a creation does not change. -/
structure TsInst where
  hwType : TrsHwType
  cqMaxId : ℕ
  hasAffinityIrq : Bool
  normalIrqNum : ℕ
  maintIrqNum : ℕ

/-- The context of an interrupt: whether it is one for maintenance, and its
index. -/
abbrev IrqCtx := Bool × ℕ

/-- `struct trs_chan`. -/
structure Chan where
  addr : ℕ
  id : ℕ
  types : TrsChanType
  noAllocSqcqMem : Bool
  hasSq : Bool
  sqid : ℕ
  sqAddr : Option ℕ
  hasCq : Bool
  cqid : ℕ
  cqAddr : Option ℕ
  irqCtx : IrqCtx

/-- What is allocated, the entries of the interrupt lists with the numbers of
channels, and the interrupts of the hardware queues. -/
structure Resources where
  ids : Multiset (TrsIdType × ℕ)
  mems : Multiset ℕ
  chanIds : Multiset ℕ
  chans : Multiset ℕ
  irqLists : Multiset (IrqCtx × ℕ)
  chanNum : IrqCtx → ℕ
  irqIndex : ℕ → ℕ
  tsInstRef : ℕ

/-- The answers that a creation is given: of its allocations in their order, of
the queries and the notice, and of the two calls that free an id. -/
structure Answers where
  chan : Option ℕ
  id : Option ℕ
  sqid : Option ℕ
  sqQuery : Bool
  sqMem : Option ℕ
  cqid : Option ℕ
  cqMem : Option ℕ
  affinityIrq : Option ℕ
  notice : Bool
  sqFreed : Bool
  cqFreed : Bool

variable (inst : TsInst) (para : ChanPara) (ans : Answers)

/-! ## The functions -/

def trsIdAlloc (s : Resources) (type : TrsIdType) (id : ℕ) : Resources :=
  { s with ids := (type, id) ::ₘ s.ids }

def trsIdFree (s : Resources) (type : TrsIdType) (id : ℕ) (freed : Bool) : Resources :=
  if freed = true then { s with ids := s.ids.erase (type, id) } else s

def memFree (s : Resources) : Option ℕ → Resources
  | none => s
  | some addr => { s with mems := s.mems.erase addr }

def trsChanSqMemInit : Except Errno ℕ :=
  if para.sqDepth = 0 ∨ TRS_SQCQ_DEPTH_MAX < para.sqDepth ∨ para.sqeSize = 0 ∨
      TRS_SQCQ_SLOT_SIZE_MAX < para.sqeSize ∨ para.sqeSize % SQE_ALIGN_SIZE ≠ 0 then
    .error .einval
  else if ans.sqQuery = false then .error .device
  else
    match ans.sqMem with
    | none => .error .enomem
    | some addr => .ok addr

def trsChanCqMemInit : Except Errno ℕ :=
  if para.cqDepth = 0 ∨ TRS_SQCQ_DEPTH_MAX < para.cqDepth ∨ para.cqeSize = 0 ∨
      TRS_SQCQ_SLOT_SIZE_MAX < para.cqeSize ∨ para.cqeSize % CQE_ALIGN_SIZE ≠ 0 then
    .error .einval
  else
    match ans.cqMem with
    | none => .error .enomem
    | some addr => .ok addr

def trsChanSqInit (s : Resources) (chan : Chan) : Resources × Except Errno Chan :=
  let type := trsChanGetSqType inst.hwType chan.types
  match ans.sqid with
  | none => (s, .error .device)
  | some sqid =>
      let s := trsIdAlloc s type sqid
      let chan := { chan with sqid }
      if chan.noAllocSqcqMem = true then (s, .ok chan)
      else
        match trsChanSqMemInit para ans with
        | .error e => (trsIdFree s type chan.sqid ans.sqFreed, .error e)
        | .ok addr => ({ s with mems := addr ::ₘ s.mems }, .ok { chan with sqAddr := some addr })

def trsChanSqUninit (s : Resources) (chan : Chan) : Resources :=
  trsIdFree (memFree s chan.sqAddr) (trsChanGetSqType inst.hwType chan.types) chan.sqid ans.sqFreed

/-- The first of the contexts with the fewest channels. -/
def trsChanFindIrqCtxWithLeastChan (chanNum : ℕ → ℕ) (irqNum : ℕ) : ℕ :=
  ((List.range irqNum).foldl
    (fun find i => if chanNum i < find.2 then (i, chanNum i) else find) (0, 0xffff)).1

def irqNum (isMaint : Bool) : ℕ := if isMaint then inst.maintIrqNum else inst.normalIrqNum

def trsChanAddToIrqList (s : Resources) (chan : Chan) : Resources × Chan :=
  let isMaint := decide (chan.types.type = .maint)
  let irqIndex :=
    if s.irqIndex chan.cqid = u32Max then
      Function.update s.irqIndex chan.cqid (ans.affinityIrq.getD u32Max)
    else s.irqIndex
  let affine := decide (chan.types.type = .hw) && inst.hasAffinityIrq
  let s := if affine then { s with irqIndex } else s
  let irqCtx : IrqCtx :=
    (isMaint,
      if affine then s.irqIndex chan.cqid % irqNum inst isMaint
      else trsChanFindIrqCtxWithLeastChan (fun i => s.chanNum (isMaint, i)) (irqNum inst isMaint))
  ({ s with
      irqLists := (irqCtx, chan.addr) ::ₘ s.irqLists
      chanNum := Function.update s.chanNum irqCtx (s.chanNum irqCtx + 1) },
    { chan with irqCtx })

def trsChanDelFromIrqList (s : Resources) (chan : Chan) : Resources :=
  { s with
    irqLists := s.irqLists.erase (chan.irqCtx, chan.addr)
    chanNum := Function.update s.chanNum chan.irqCtx (s.chanNum chan.irqCtx - 1) }

def trsChanCqInit (s : Resources) (chan : Chan) : Resources × Except Errno Chan :=
  let type := trsChanGetCqType inst.hwType chan.types
  match ans.cqid with
  | none => (s, .error .efault)
  | some cqid =>
      let s := trsIdAlloc s type cqid
      let chan := { chan with cqid }
      if chan.types.type = .hw ∧ inst.cqMaxId ≤ chan.cqid then (s, .error .efault)
      else if chan.noAllocSqcqMem = true then
        let (s, chan) := trsChanAddToIrqList inst ans s chan
        (s, .ok chan)
      else
        match trsChanCqMemInit para ans with
        | .error e => (trsIdFree s type chan.cqid ans.cqFreed, .error e)
        | .ok addr =>
            let (s, chan) := trsChanAddToIrqList inst ans { s with mems := addr ::ₘ s.mems }
              { chan with cqAddr := some addr }
            (s, .ok chan)

def trsChanCqUninit (s : Resources) (chan : Chan) : Resources :=
  trsIdFree (memFree (trsChanDelFromIrqList s chan) chan.cqAddr)
    (trsChanGetCqType inst.hwType chan.types) chan.cqid ans.cqFreed

/-- A channel that is created has not been noticed, so that its end is not either. -/
def trsChanInstUninit (s : Resources) (chan : Chan) : Resources :=
  let s := if chan.hasSq = true then trsChanSqUninit inst ans s chan else s
  if chan.hasCq = true then trsChanCqUninit inst ans s chan else s

/-- The part of `trs_chan_inst_init` up to the submission queue. -/
def trsChanInstInitSq (s : Resources) (chan : Chan) : Resources × Except Errno Chan :=
  if para.allocSq = true then
    match trsChanSqInit inst para ans s chan with
    | (s, .error e) => (s, .error e)
    | (s, .ok chan) => (s, .ok { chan with hasSq := true })
  else (s, .ok chan)

/-- The part that follows, up to the completion queue. -/
def trsChanInstInitCq (s : Resources) (chan : Chan) : Resources × Except Errno Chan :=
  if para.allocCq = true then
    match trsChanCqInit inst para ans s chan with
    | (s, .error e) => (trsChanInstUninit inst ans s chan, .error e)
    | (s, .ok chan) => (s, .ok { chan with hasCq := true })
  else (s, .ok chan)

/-- The part that follows, up to the notice. -/
def trsChanInstInitNotice (s : Resources) (chan : Chan) : Resources × Except Errno Chan :=
  if para.noticeTs = true ∧ ans.notice = false then
    (trsChanInstUninit inst ans s chan, .error .device)
  else (s, .ok chan)

def trsChanInstInit (s : Resources) (chan : Chan) : Resources × Except Errno Chan :=
  match trsChanInstInitSq inst para ans s chan with
  | (s, .error e) => (s, .error e)
  | (s, .ok chan) =>
      match trsChanInstInitCq inst para ans s chan with
      | (s, .error e) => (s, .error e)
      | (s, .ok chan) => trsChanInstInitNotice inst para ans s chan

/-- The channel as it is allocated and given its parameters. -/
def newChan (addr id : ℕ) : Chan where
  addr := addr
  id := id
  types := para.types
  noAllocSqcqMem := para.noAllocSqcqMem
  hasSq := false
  sqid := 0
  sqAddr := none
  hasCq := false
  cqid := 0
  cqAddr := none
  irqCtx := (false, 0)

def trsChanInstCreate (s : Resources) : Resources × Except Errno Chan :=
  match ans.chan with
  | none => (s, .error .enomem)
  | some addr =>
      match ans.id with
      | none => (s, .error .efault)
      | some id =>
          let s := { s with chans := addr ::ₘ s.chans, chanIds := id ::ₘ s.chanIds }
          match trsChanInstInit inst para ans s (newChan para addr id) with
          | (s, .error e) =>
              ({ s with chans := s.chans.erase addr, chanIds := s.chanIds.erase id }, .error e)
          | (s, .ok chan) => (s, .ok chan)

/-- `hal_kernel_trs_chan_create`, for an instance that exists. -/
def halKernelTrsChanCreate (s : Resources) : Resources × Except Errno Chan :=
  match trsChanInstCreate inst para ans { s with tsInstRef := s.tsInstRef + 1 } with
  | (s, .error e) => ({ s with tsInstRef := s.tsInstRef - 1 }, .error e)
  | (s, .ok chan) => (s, .ok chan)

/-! ## The claim -/

/-- The same ids, memories, channels and interrupt entries are allocated. -/
structure Restored (s t : Resources) : Prop where
  ids : t.ids = s.ids
  mems : t.mems = s.mems
  chanIds : t.chanIds = s.chanIds
  chans : t.chans = s.chans
  irqLists : t.irqLists = s.irqLists
  tsInstRef : t.tsInstRef = s.tsInstRef

/-- The submission queue of the channel is complete, if it is to have one. -/
def SqReady : Prop :=
  para.allocSq = true → ans.sqid ≠ none ∧
    (para.noAllocSqcqMem = true ∨ ∃ addr, trsChanSqMemInit para ans = .ok addr)

/-- Every id that is taken may be given back: the two ids are freed when they are
asked to be, and that of the completion queue is in range for a hardware channel. -/
def GivesBack : Prop :=
  ans.chan ≠ none → ans.id ≠ none →
    (para.allocSq = true → ans.sqid ≠ none → ans.sqFreed = true) ∧
    (para.allocCq = true → SqReady para ans → ∀ cqid ∈ ans.cqid,
      ¬ (para.types.type = .hw ∧ inst.cqMaxId ≤ cqid) ∧ ans.cqFreed = true)

/-! ## What a channel holds -/

/-- The entry of an optional address. -/
def addrs : Option ℕ → Multiset ℕ
  | none => 0
  | some addr => {addr}

def heldSqIds (c : Chan) : Multiset (TrsIdType × ℕ) :=
  if c.hasSq = true then {(trsChanGetSqType inst.hwType c.types, c.sqid)} else 0

def heldCqIds (c : Chan) : Multiset (TrsIdType × ℕ) :=
  if c.hasCq = true then {(trsChanGetCqType inst.hwType c.types, c.cqid)} else 0

/-- The resources are those of `s` and what the channel holds. -/
structure Holds (s : Resources) (c : Chan) (t : Resources) : Prop where
  ids : t.ids = heldSqIds inst c + (heldCqIds inst c + s.ids)
  mems : t.mems = (if c.hasSq = true then addrs c.sqAddr else 0) +
    ((if c.hasCq = true then addrs c.cqAddr else 0) + s.mems)
  irqLists : t.irqLists = (if c.hasCq = true then {(c.irqCtx, c.addr)} else 0) + s.irqLists
  chanIds : t.chanIds = s.chanIds
  chans : t.chans = s.chans
  tsInstRef : t.tsInstRef = s.tsInstRef

/-- The resources are those of `s` and some ids that nobody holds. -/
structure Loses (s : Resources) (lost : Multiset (TrsIdType × ℕ)) (t : Resources) : Prop where
  ids : t.ids = lost + s.ids
  mems : t.mems = s.mems
  irqLists : t.irqLists = s.irqLists
  chanIds : t.chanIds = s.chanIds
  chans : t.chans = s.chans
  tsInstRef : t.tsInstRef = s.tsInstRef

theorem Loses.restored_iff {s t : Resources} {lost : Multiset (TrsIdType × ℕ)}
    (h : Loses s lost t) : Restored s t ↔ lost = 0 := by
  constructor
  · intro hrestored
    have hids := hrestored.ids
    rw [h.ids] at hids
    exact add_eq_right.mp hids
  · rintro rfl
    exact ⟨h.ids.trans (zero_add _), h.mems, h.chanIds, h.chans, h.irqLists, h.tsInstRef⟩

theorem Loses.refl (s : Resources) : Loses s 0 s :=
  ⟨(zero_add _).symm, rfl, rfl, rfl, rfl, rfl⟩

theorem Loses.ids_add (s : Resources) (lost : Multiset (TrsIdType × ℕ)) :
    Loses s lost { s with ids := lost + s.ids } :=
  ⟨rfl, rfl, rfl, rfl, rfl, rfl⟩

theorem Loses.trans {s t u : Resources} {lost lost' : Multiset (TrsIdType × ℕ)}
    (h : Loses s lost t) (h' : Loses t lost' u) : Loses s (lost + lost') u where
  ids := by rw [h'.ids, h.ids, ← add_assoc, add_comm lost']
  mems := h'.mems.trans h.mems
  irqLists := h'.irqLists.trans h.irqLists
  chanIds := h'.chanIds.trans h.chanIds
  chans := h'.chans.trans h.chans
  tsInstRef := h'.tsInstRef.trans h.tsInstRef

section Fields

variable (s : Resources) (type : TrsIdType) (id : ℕ) (freed : Bool) (addr : Option ℕ) (c : Chan)

@[simp] theorem trsIdFree_mems : (trsIdFree s type id freed).mems = s.mems := by
  unfold trsIdFree; split <;> rfl

@[simp] theorem trsIdFree_irqLists : (trsIdFree s type id freed).irqLists = s.irqLists := by
  unfold trsIdFree; split <;> rfl

@[simp] theorem trsIdFree_chanIds : (trsIdFree s type id freed).chanIds = s.chanIds := by
  unfold trsIdFree; split <;> rfl

@[simp] theorem trsIdFree_chans : (trsIdFree s type id freed).chans = s.chans := by
  unfold trsIdFree; split <;> rfl

@[simp] theorem trsIdFree_tsInstRef : (trsIdFree s type id freed).tsInstRef = s.tsInstRef := by
  unfold trsIdFree; split <;> rfl

/-- An id that is not freed is lost. -/
theorem trsIdFree_ids {m : Multiset (TrsIdType × ℕ)} (h : s.ids = (type, id) ::ₘ m) :
    (trsIdFree s type id freed).ids = (if freed = true then 0 else {(type, id)}) + m := by
  unfold trsIdFree
  split
  · rw [h, Multiset.erase_cons_head, zero_add]
  · rw [h, Multiset.singleton_add]

/-- An id that is taken and given back is lost when it is not freed. -/
theorem idFree_alloc_loses :
    Loses s (if freed = true then 0 else {(type, id)})
      (trsIdFree (trsIdAlloc s type id) type id freed) where
  ids := trsIdFree_ids _ _ _ _ rfl
  mems := trsIdFree_mems ..
  irqLists := trsIdFree_irqLists ..
  chanIds := trsIdFree_chanIds ..
  chans := trsIdFree_chans ..
  tsInstRef := trsIdFree_tsInstRef ..

/-- An id that is taken and kept is lost. -/
theorem idAlloc_loses : Loses s {(type, id)} (trsIdAlloc s type id) :=
  ⟨(Multiset.singleton_add _ _).symm, rfl, rfl, rfl, rfl, rfl⟩

@[simp] theorem memFree_ids : (memFree s addr).ids = s.ids := by cases addr <;> rfl

@[simp] theorem memFree_irqLists : (memFree s addr).irqLists = s.irqLists := by cases addr <;> rfl

@[simp] theorem memFree_chanIds : (memFree s addr).chanIds = s.chanIds := by cases addr <;> rfl

@[simp] theorem memFree_chans : (memFree s addr).chans = s.chans := by cases addr <;> rfl

@[simp] theorem memFree_tsInstRef : (memFree s addr).tsInstRef = s.tsInstRef := by
  cases addr <;> rfl

theorem memFree_mems {m : Multiset ℕ} (h : s.mems = addrs addr + m) :
    (memFree s addr).mems = m := by
  cases addr with
  | none => exact h.trans (zero_add _)
  | some a =>
      rw [memFree, h, addrs, Multiset.singleton_add]
      exact Multiset.erase_cons_head a m

end Fields

/-! ## Taking a channel apart -/

variable {inst para} {s t : Resources} {c : Chan}

theorem sqUninit_holds (h : Holds inst s c t) :
    Holds inst { s with ids := (if ans.sqFreed = true then 0 else heldSqIds inst c) + s.ids }
      { c with hasSq := false } (if c.hasSq = true then trsChanSqUninit inst ans t c else t) := by
  obtain ⟨hids, hmems, hirq, hchanIds, hchans, href⟩ := h
  by_cases hsq : c.hasSq = true
  · simp only [hsq, if_true, heldSqIds, Multiset.singleton_add] at hids hmems ⊢
    have hfreed := trsIdFree_ids (memFree t c.sqAddr) (trsChanGetSqType inst.hwType c.types) c.sqid
      ans.sqFreed ((memFree_ids t c.sqAddr).trans hids)
    refine ⟨?_, ?_, ?_, ?_, ?_, ?_⟩
    · rw [trsChanSqUninit, hfreed, add_left_comm]
      exact (zero_add _).symm
    · rw [trsChanSqUninit, trsIdFree_mems, memFree_mems t c.sqAddr hmems]
      exact (zero_add _).symm
    · rw [trsChanSqUninit, trsIdFree_irqLists, memFree_irqLists, hirq]
    · rw [trsChanSqUninit, trsIdFree_chanIds, memFree_chanIds, hchanIds]
    · rw [trsChanSqUninit, trsIdFree_chans, memFree_chans, hchans]
    · rw [trsChanSqUninit, trsIdFree_tsInstRef, memFree_tsInstRef, href]
  · have hnone : heldSqIds inst c = 0 := if_neg hsq
    rw [hnone] at hids
    rw [if_neg hsq] at hmems
    simp only [if_neg hsq, hnone, ite_self, zero_add]
    exact ⟨hids, hmems, hirq, hchanIds, hchans, href⟩

theorem cqUninit_loses (h : Holds inst s c t) (hsq : c.hasSq = false) :
    Loses s (if ans.cqFreed = true then 0 else heldCqIds inst c)
      (if c.hasCq = true then trsChanCqUninit inst ans t c else t) := by
  obtain ⟨hids, hmems, hirq, hchanIds, hchans, href⟩ := h
  simp only [heldSqIds, hsq, Bool.false_eq_true, if_false, zero_add] at hids hmems
  by_cases hcq : c.hasCq = true
  · simp only [hcq, if_true, heldCqIds, Multiset.singleton_add] at hids hmems hirq ⊢
    have hfreed := trsIdFree_ids (memFree (trsChanDelFromIrqList t c) c.cqAddr)
      (trsChanGetCqType inst.hwType c.types) c.cqid ans.cqFreed
      ((memFree_ids (trsChanDelFromIrqList t c) c.cqAddr).trans hids)
    refine ⟨?_, ?_, ?_, ?_, ?_, ?_⟩
    · rw [trsChanCqUninit, hfreed]
    · rw [trsChanCqUninit, trsIdFree_mems, memFree_mems (trsChanDelFromIrqList t c) c.cqAddr hmems]
    · rw [trsChanCqUninit, trsIdFree_irqLists, memFree_irqLists, trsChanDelFromIrqList, hirq,
        Multiset.erase_cons_head]
    · rw [trsChanCqUninit, trsIdFree_chanIds, memFree_chanIds, trsChanDelFromIrqList, hchanIds]
    · rw [trsChanCqUninit, trsIdFree_chans, memFree_chans, trsChanDelFromIrqList, hchans]
    · rw [trsChanCqUninit, trsIdFree_tsInstRef, memFree_tsInstRef, trsChanDelFromIrqList, href]
  · have hnone : heldCqIds inst c = 0 := if_neg hcq
    rw [hnone, zero_add] at hids
    rw [if_neg hcq, zero_add] at hmems hirq
    simp only [if_neg hcq, hnone, ite_self]
    exact ⟨hids.trans (zero_add _).symm, hmems, hirq, hchanIds, hchans, href⟩

/-- A channel that is taken apart gives back what it holds, but for the ids that
are not freed. -/
theorem instUninit_loses (h : Holds inst s c t) :
    Loses s ((if ans.sqFreed = true then 0 else heldSqIds inst c) +
      if ans.cqFreed = true then 0 else heldCqIds inst c) (trsChanInstUninit inst ans t c) := by
  have hloses := cqUninit_loses ans (sqUninit_holds ans h) rfl
  exact (Loses.ids_add s _).trans hloses

/-! ## The parts of a creation -/

/-- The ids that the failing creation of a channel loses. -/
def lostSqIds (inst : TsInst) (para : ChanPara) (ans : Answers) : Multiset (TrsIdType × ℕ) :=
  match ans.sqid with
  | none => 0
  | some sqid =>
      if para.allocSq = true ∧ ans.sqFreed = false then
        {(trsChanGetSqType inst.hwType para.types, sqid)}
      else 0

open Classical in
noncomputable def lostCqIds (inst : TsInst) (para : ChanPara) (ans : Answers) :
    Multiset (TrsIdType × ℕ) :=
  match ans.cqid with
  | none => 0
  | some cqid =>
      if para.allocCq = true ∧ SqReady para ans ∧
          ((para.types.type = .hw ∧ inst.cqMaxId ≤ cqid) ∨ ans.cqFreed = false) then
        {(trsChanGetCqType inst.hwType para.types, cqid)}
      else 0

/-- A channel whose submission queue is complete. -/
structure SqComplete (inst : TsInst) (para : ChanPara) (ans : Answers) (s : Resources) (c : Chan)
    (t : Resources) : Prop where
  holds : Holds inst s c t
  types : c.types = para.types
  noAllocSqcqMem : c.noAllocSqcqMem = para.noAllocSqcqMem
  hasCq : c.hasCq = false
  cqAddr : c.cqAddr = none
  lost : (if ans.sqFreed = true then 0 else heldSqIds inst c) = lostSqIds inst para ans
  ready : SqReady para ans

variable {ans} {addr id : ℕ} {e : Errno}

theorem newChan_holds : Holds inst s (newChan para addr id) s where
  ids := ((zero_add _).trans (zero_add _)).symm
  mems := ((zero_add _).trans (zero_add _)).symm
  irqLists := (zero_add _).symm
  chanIds := rfl
  chans := rfl
  tsInstRef := rfl

/-- The ids that a submission queue would lose are those that it holds. -/
theorem lostSqIds_of_some {sqid : ℕ} (halloc : para.allocSq = true) (hsqid : ans.sqid = some sqid) :
    lostSqIds inst para ans = if ans.sqFreed = true then 0
      else {(trsChanGetSqType inst.hwType para.types, sqid)} := by
  rw [lostSqIds, hsqid]
  cases hfreed : ans.sqFreed <;> simp [halloc]

theorem instInitSq_spec :
    match trsChanInstInitSq inst para ans s (newChan para addr id) with
    | (t, .error _) => Loses s (lostSqIds inst para ans) t ∧ ¬ SqReady para ans
    | (t, .ok c) => SqComplete inst para ans s c t := by
  by_cases halloc : para.allocSq = true
  · cases hsqid : ans.sqid with
    | none =>
        have hlost : lostSqIds inst para ans = 0 := by rw [lostSqIds, hsqid]
        simp only [trsChanInstInitSq, halloc, if_true, trsChanSqInit, hsqid, hlost]
        exact ⟨.refl s, fun hready => (hready halloc).1 hsqid⟩
    | some sqid =>
        have hlost : lostSqIds inst para ans = _ := lostSqIds_of_some halloc hsqid
        have hsome : ans.sqid ≠ none := by
          rw [hsqid]
          exact Option.some_ne_none sqid
        by_cases hmem : para.noAllocSqcqMem = true
        · simp only [trsChanInstInitSq, halloc, if_true, trsChanSqInit, hsqid, newChan, hmem]
          refine ⟨?_, rfl, hmem.symm, rfl, rfl, hlost.symm, fun _ => ⟨hsome, .inl hmem⟩⟩
          exact ⟨by simp [trsIdAlloc, heldSqIds, heldCqIds], ((zero_add _).trans (zero_add _)).symm,
            (zero_add _).symm, rfl, rfl, rfl⟩
        · have hfalse : para.noAllocSqcqMem = false := Bool.eq_false_iff.mpr hmem
          cases hinit : trsChanSqMemInit para ans with
          | error e =>
              simp only [trsChanInstInitSq, halloc, if_true, trsChanSqInit, hsqid, newChan, hfalse,
                Bool.false_eq_true, if_false, hinit, hlost]
              refine ⟨idFree_alloc_loses .., fun hready => ?_⟩
              obtain ⟨addr, haddr⟩ := (hready halloc).2.resolve_left hmem
              rw [hinit] at haddr
              cases haddr
          | ok a =>
              simp only [trsChanInstInitSq, halloc, if_true, trsChanSqInit, hsqid, newChan, hfalse,
                Bool.false_eq_true, if_false, hinit]
              refine ⟨?_, rfl, hfalse.symm, rfl, rfl, hlost.symm,
                fun _ => ⟨hsome, .inr ⟨a, hinit⟩⟩⟩
              exact ⟨by simp [trsIdAlloc, heldSqIds, heldCqIds], by simp [trsIdAlloc, addrs],
                (zero_add _).symm, rfl, rfl, rfl⟩
  · have hlost : lostSqIds inst para ans = 0 := by
      rw [lostSqIds]
      split
      · rfl
      · exact if_neg fun h => halloc h.1
    rw [trsChanInstInitSq, if_neg halloc]
    exact ⟨newChan_holds, rfl, rfl, rfl, rfl, by rw [hlost]; exact ite_self 0,
      fun h => absurd h halloc⟩

/-- A channel that is complete but for the notice. -/
structure Complete (inst : TsInst) (para : ChanPara) (ans : Answers) (s : Resources) (c : Chan)
    (t : Resources) : Prop where
  holds : Holds inst s c t
  lostSq : (if ans.sqFreed = true then 0 else heldSqIds inst c) = lostSqIds inst para ans
  lostCq : (if ans.cqFreed = true then 0 else heldCqIds inst c) = lostCqIds inst para ans

theorem lostCqIds_of_some {cqid : ℕ} (halloc : para.allocCq = true) (hready : SqReady para ans)
    (hcqid : ans.cqid = some cqid) (hrange : ¬ (para.types.type = .hw ∧ inst.cqMaxId ≤ cqid)) :
    lostCqIds inst para ans = if ans.cqFreed = true then 0
      else {(trsChanGetCqType inst.hwType para.types, cqid)} := by
  rw [lostCqIds, hcqid]
  cases hfreed : ans.cqFreed <;> simp [halloc, hready, hrange]

/-- The channel enters the list of its interrupt. -/
theorem addToIrqList_spec (inst : TsInst) (ans : Answers) (s : Resources) (c : Chan) :
    ∃ irqCtx, (trsChanAddToIrqList inst ans s c).2 = { c with irqCtx } ∧
      (trsChanAddToIrqList inst ans s c).1.irqLists = (irqCtx, c.addr) ::ₘ s.irqLists ∧
      (trsChanAddToIrqList inst ans s c).1.ids = s.ids ∧
      (trsChanAddToIrqList inst ans s c).1.mems = s.mems ∧
      (trsChanAddToIrqList inst ans s c).1.chanIds = s.chanIds ∧
      (trsChanAddToIrqList inst ans s c).1.chans = s.chans ∧
      (trsChanAddToIrqList inst ans s c).1.tsInstRef = s.tsInstRef := by
  unfold trsChanAddToIrqList
  extract_lets isMaint irqIndex affine s' irqCtx
  refine ⟨irqCtx, rfl, ?_⟩
  by_cases haffine : affine = true
  · have hs : s' = { s with irqIndex } := if_pos haffine
    rw [hs]
    exact ⟨rfl, rfl, rfl, rfl, rfl, rfl⟩
  · have hs : s' = s := if_neg haffine
    rw [hs]
    exact ⟨rfl, rfl, rfl, rfl, rfl, rfl⟩

/-- A completion queue in the list of its interrupt is held. -/
theorem complete_of_addToIrqList {u : Resources} {cqid : ℕ} {cqAddr : Option ℕ}
    (h : SqComplete inst para ans s c t) (halloc : para.allocCq = true)
    (hcqid : ans.cqid = some cqid) (hrange : ¬ (para.types.type = .hw ∧ inst.cqMaxId ≤ cqid))
    (hids : u.ids = (trsChanGetCqType inst.hwType c.types, cqid) ::ₘ t.ids)
    (hmems : u.mems = addrs cqAddr + t.mems) (hirq : u.irqLists = t.irqLists)
    (hchanIds : u.chanIds = t.chanIds) (hchans : u.chans = t.chans)
    (href : u.tsInstRef = t.tsInstRef) :
    Complete inst para ans s
      { (trsChanAddToIrqList inst ans u { c with cqid, cqAddr }).2 with hasCq := true }
      (trsChanAddToIrqList inst ans u { c with cqid, cqAddr }).1 := by
  obtain ⟨irqCtx, hchan, hlist, hids', hmems', hchanIds', hchans', href'⟩ :=
    addToIrqList_spec inst ans u { c with cqid, cqAddr }
  have hheld : heldCqIds inst c = 0 := if_neg (by rw [h.hasCq]; exact Bool.false_ne_true)
  rw [hchan]
  refine ⟨⟨?_, ?_, ?_, ?_, ?_, ?_⟩, h.lost, ?_⟩
  · rw [hids', hids, h.holds.ids, hheld, zero_add, ← Multiset.singleton_add, add_left_comm]
    rfl
  · rw [hmems', hmems, h.holds.mems]
    simp only [h.hasCq, Bool.false_eq_true, if_false, if_true, zero_add]
    exact add_left_comm _ _ _
  · rw [hlist, hirq, h.holds.irqLists]
    simp only [h.hasCq, Bool.false_eq_true, if_false, if_true, zero_add, Multiset.singleton_add]
  · rw [hchanIds', hchanIds, h.holds.chanIds]
  · rw [hchans', hchans, h.holds.chans]
  · rw [href', href, h.holds.tsInstRef]
  · rw [lostCqIds_of_some halloc h.ready hcqid hrange, ← h.types]
    rfl

/-- What the failing completion queue has lost stays lost. -/
theorem instUninit_of_lost {u : Resources} {lost : Multiset (TrsIdType × ℕ)}
    (h : SqComplete inst para ans s c t) (hu : Loses t lost u) :
    Loses s (lostSqIds inst para ans + lost) (trsChanInstUninit inst ans u c) := by
  have hheld : heldCqIds inst c = 0 := if_neg (by rw [h.hasCq]; exact Bool.false_ne_true)
  have hholds : Holds inst { s with ids := lost + s.ids } c u := by
    refine ⟨?_, hu.mems.trans h.holds.mems, hu.irqLists.trans h.holds.irqLists,
      hu.chanIds.trans h.holds.chanIds, hu.chans.trans h.holds.chans,
      hu.tsInstRef.trans h.holds.tsInstRef⟩
    rw [hu.ids, h.holds.ids, hheld, zero_add, zero_add, add_left_comm]
  have hloses := instUninit_loses ans hholds
  rw [h.lost, hheld, ite_self, add_zero] at hloses
  rw [add_comm]
  exact (Loses.ids_add s lost).trans hloses

theorem instInitCq_spec (h : SqComplete inst para ans s c t) :
    match trsChanInstInitCq inst para ans t c with
    | (u, .error _) => Loses s (lostSqIds inst para ans + lostCqIds inst para ans) u
    | (u, .ok c') => Complete inst para ans s c' u := by
  by_cases halloc : para.allocCq = true
  · cases hcqid : ans.cqid with
    | none =>
        have hlost : lostCqIds inst para ans = 0 := by rw [lostCqIds, hcqid]
        simp only [trsChanInstInitCq, halloc, if_true, trsChanCqInit, hcqid, hlost]
        exact instUninit_of_lost h (.refl t)
    | some cqid =>
        by_cases hrange : para.types.type = .hw ∧ inst.cqMaxId ≤ cqid
        · -- the id that is out of range has been allocated
          have hlost : lostCqIds inst para ans =
              {(trsChanGetCqType inst.hwType para.types, cqid)} := by
            rw [lostCqIds, hcqid]
            exact if_pos ⟨halloc, h.ready, .inl hrange⟩
          simp only [trsChanInstInitCq, halloc, if_true, trsChanCqInit, hcqid, h.types, hrange,
            and_self, hlost]
          exact instUninit_of_lost h (idAlloc_loses ..)
        · have hlost : lostCqIds inst para ans = _ := lostCqIds_of_some halloc h.ready hcqid hrange
          rw [← h.types] at hlost
          have hinRange : ¬ (c.types.type = .hw ∧ inst.cqMaxId ≤ cqid) := by rwa [h.types]
          by_cases hmem : c.noAllocSqcqMem = true
          · simp only [trsChanInstInitCq, halloc, if_true, trsChanCqInit, hcqid, if_neg hinRange,
              if_pos hmem]
            have hnone : { c with cqid } = { c with cqid, cqAddr := none } := by rw [← h.cqAddr]
            rw [hnone]
            exact complete_of_addToIrqList h halloc hcqid hrange rfl (zero_add _).symm rfl rfl rfl
              rfl
          · cases hinit : trsChanCqMemInit para ans with
            | error e =>
                simp only [trsChanInstInitCq, halloc, if_true, trsChanCqInit, hcqid,
                  if_neg hinRange, if_neg hmem, hinit, hlost]
                exact instUninit_of_lost h (idFree_alloc_loses ..)
            | ok a =>
                simp only [trsChanInstInitCq, halloc, if_true, trsChanCqInit, hcqid,
                  if_neg hinRange, if_neg hmem, hinit]
                exact complete_of_addToIrqList h halloc hcqid hrange rfl
                  (Multiset.singleton_add _ _).symm rfl rfl rfl rfl
  · have hlost : lostCqIds inst para ans = 0 := by
      rw [lostCqIds]
      split
      · rfl
      · exact if_neg fun h => halloc h.1
    have hheld : heldCqIds inst c = 0 := if_neg (by rw [h.hasCq]; exact Bool.false_ne_true)
    rw [trsChanInstInitCq, if_neg halloc]
    exact ⟨h.holds, h.lost, by rw [hheld, hlost, ite_self]⟩

/-- A failing initialization loses the ids that it does not give back. -/
theorem instInit_loses (h : (trsChanInstInit inst para ans s (newChan para addr id)).2 = .error e) :
    Loses s (lostSqIds inst para ans + lostCqIds inst para ans)
      (trsChanInstInit inst para ans s (newChan para addr id)).1 := by
  unfold trsChanInstInit at h ⊢
  have hsq := @instInitSq_spec inst para ans s addr id
  generalize trsChanInstInitSq inst para ans s (newChan para addr id) = r at h hsq ⊢
  obtain ⟨t, e | c⟩ := r
  · obtain ⟨hloses, hready⟩ := hsq
    have hlost : lostCqIds inst para ans = 0 := by
      rw [lostCqIds]
      split
      · rfl
      · exact if_neg fun hall => hready hall.2.1
    rw [hlost, add_zero]
    exact hloses
  · have hcq := instInitCq_spec hsq
    dsimp only at h ⊢
    generalize trsChanInstInitCq inst para ans t c = r at h hcq ⊢
    obtain ⟨u, e | c'⟩ := r
    · exact hcq
    · dsimp only [trsChanInstInitNotice] at h ⊢
      split_ifs at h ⊢
      have hloses := instUninit_loses ans hcq.holds
      rw [hcq.lostSq, hcq.lostCq] at hloses
      exact hloses

theorem lostSqIds_eq_zero_iff : lostSqIds inst para ans = 0 ↔
    (para.allocSq = true → ans.sqid ≠ none → ans.sqFreed = true) := by
  unfold lostSqIds
  cases hsqid : ans.sqid with
  | none => simp
  | some sqid => cases hfreed : ans.sqFreed <;> simp

theorem lostCqIds_eq_zero_iff : lostCqIds inst para ans = 0 ↔
    (para.allocCq = true → SqReady para ans → ∀ cqid ∈ ans.cqid,
      ¬ (para.types.type = .hw ∧ inst.cqMaxId ≤ cqid) ∧ ans.cqFreed = true) := by
  classical
  unfold lostCqIds
  cases hcqid : ans.cqid with
  | none => simp
  | some cqid =>
      rw [ite_eq_right_iff]
      constructor
      · intro hnot halloc hready cqid' hmem
        obtain rfl := Option.some.inj hmem
        refine ⟨fun hrange => ?_, ?_⟩
        · exact Multiset.singleton_ne_zero _ (hnot ⟨halloc, hready, .inl hrange⟩)
        · by_contra hfreed
          exact Multiset.singleton_ne_zero _
            (hnot ⟨halloc, hready, .inr (Bool.eq_false_iff.mpr hfreed)⟩)
      · rintro hall ⟨halloc, hready, hrange | hfreed⟩
        · exact absurd hrange (hall halloc hready cqid rfl).1
        · exact absurd (hall halloc hready cqid rfl).2 (by rw [hfreed]; exact Bool.false_ne_true)

/-- A failing creation loses the ids that it does not give back, once the channel
has its memory and its id. -/
theorem instCreate_loses (h : (trsChanInstCreate inst para ans s).2 = .error e) :
    ∃ lost, Loses s lost (trsChanInstCreate inst para ans s).1 ∧
      (lost = 0 ↔ GivesBack inst para ans) := by
  unfold trsChanInstCreate at h ⊢
  unfold GivesBack
  cases hchan : ans.chan with
  | none => exact ⟨0, .refl s, by simp⟩
  | some addr =>
      cases hid : ans.id with
      | none => exact ⟨0, .refl s, by simp⟩
      | some id =>
          simp only [hchan, hid] at h
          refine ⟨lostSqIds inst para ans + lostCqIds inst para ans, ?_, ?_⟩
          · dsimp only
            generalize hinit : trsChanInstInit inst para ans _ (newChan para addr id) = r at h ⊢
            obtain ⟨t, e' | c⟩ := r
            · have hloses := instInit_loses (congrArg Prod.snd hinit)
              rw [hinit] at hloses
              refine ⟨hloses.ids, hloses.mems, hloses.irqLists, ?_, ?_, hloses.tsInstRef⟩
              · exact (congrArg (Multiset.erase · id) hloses.chanIds).trans
                  (Multiset.erase_cons_head _ _)
              · exact (congrArg (Multiset.erase · addr) hloses.chans).trans
                  (Multiset.erase_cons_head _ _)
            · cases h
          · rw [add_eq_zero, lostSqIds_eq_zero_iff, lostCqIds_eq_zero_iff]
            simp

/-- A failing creation leaves what was allocated before it exactly when every id
that it takes is given back. -/
theorem create_restored_iff (inst : TsInst) (para : ChanPara) (ans : Answers) (s : Resources)
    (e : Errno) (h : (halKernelTrsChanCreate inst para ans s).2 = .error e) :
    Restored s (halKernelTrsChanCreate inst para ans s).1 ↔ GivesBack inst para ans := by
  unfold halKernelTrsChanCreate at h ⊢
  generalize hcreate : trsChanInstCreate inst para ans _ = r at h ⊢
  obtain ⟨t, e' | c⟩ := r
  · obtain ⟨lost, hloses, hlost⟩ := instCreate_loses (congrArg Prod.snd hcreate)
    rw [hcreate] at hloses
    rw [← hlost]
    apply Loses.restored_iff
    refine ⟨hloses.ids, hloses.mems, hloses.irqLists, hloses.chanIds, hloses.chans, ?_⟩
    dsimp only
    rw [hloses.tsInstRef]
    exact Nat.add_sub_cancel _ _
  · cases h

/-- A channel of software whose submission queue has no memory. -/
def noMemPara : ChanPara where
  types := ⟨.sw, .rts⟩
  allocSq := true
  allocCq := true
  noAllocSqcqMem := false
  noticeTs := false
  sqDepth := 16
  sqeSize := 64
  cqDepth := 16
  cqeSize := 16

def noMemAnswers : Answers where
  chan := some 1
  id := some 2
  sqid := some 3
  sqQuery := true
  sqMem := none
  cqid := none
  cqMem := none
  affinityIrq := none
  notice := true
  sqFreed := true
  cqFreed := true

def emptyResources : Resources where
  ids := 0
  mems := 0
  chanIds := 0
  chans := 0
  irqLists := 0
  chanNum := fun _ => 0
  irqIndex := fun _ => u32Max
  tsInstRef := 1

theorem create_restored_noMem :
    Restored emptyResources
      (halKernelTrsChanCreate ⟨.stars, 8, false, 1, 1⟩ noMemPara noMemAnswers emptyResources).1 :=
  have hready : ¬ SqReady noMemPara noMemAnswers := by
    intro hready
    obtain ⟨addr, haddr⟩ := (hready rfl).2.resolve_left Bool.false_ne_true
    cases haddr
  (create_restored_iff ⟨.stars, 8, false, 1, 1⟩ noMemPara noMemAnswers emptyResources .enomem
    rfl).mpr fun _ _ => ⟨fun _ _ => rfl, fun _ hsq => absurd hsq hready⟩

/-- A hardware channel without submission queue that is given the id of a completion
queue out of range. -/
theorem create_loses_cqid :
    ∃ (inst : TsInst) (para : ChanPara) (ans : Answers),
      (halKernelTrsChanCreate inst para ans emptyResources).2 = .error .efault ∧
        (halKernelTrsChanCreate inst para ans emptyResources).1.ids = {(.hwCqId, 8)} ∧
        ¬ Restored emptyResources (halKernelTrsChanCreate inst para ans emptyResources).1 := by
  refine ⟨⟨.stars, 8, false, 1, 1⟩, { noMemPara with types := ⟨.hw, .rts⟩, allocSq := false },
    { noMemAnswers with cqid := some 8 }, rfl, rfl, fun hrestored => ?_⟩
  exact Multiset.singleton_ne_zero _ hrestored.ids

end OpiaiKernel.Trs.ChanResources
