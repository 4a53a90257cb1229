import OpiaiKernel.Lib.Machine
import Mathlib.Algebra.BigOperators.Group.List.Basic
import Mathlib.Data.List.Nodup
import Mathlib.Data.Nat.Notation
import Mathlib.Tactic.SplitIfs
import Mathlib.Algebra.Ring.Nat

/-!
# The pool of registered ranges of ids

Ranges of ids are registered and unregistered while ids of them are out.  A pool
keeps a node for each range, in their order, with the number of its available
ids and an `idr` of the ones that are out.  An id is the smallest unused one of
the first node that has one, of all its ids or of those in a range.

The functions are translated from `id_pool.c`; the sums are in 32 bits.  Next to
the pool there are the ids that were allocated and not freed, with those of an
unregistered range (`handedOut`) and without (`outstanding`).
-/

namespace OpiaiKernel.Trs.IdRanges

def maxIdPoolNum : ℕ := 32

/-- `struct id_pool_node`, with the ids of its `idr`. -/
structure IdPoolNode where
  idStart : ℕ
  idAvailNum : ℕ
  idTotalNum : ℕ
  idr : List ℕ
  deriving DecidableEq

def IdPoolNode.idEnd (n : IdPoolNode) : ℕ := n.idStart + n.idTotalNum

/-- `struct id_pool`; the nodes of its tree are in the order of their ranges. -/
structure IdPool where
  nodes : List IdPoolNode
  poolNum : ℕ
  idTotalNum : ℕ
  handedOut : List ℕ
  outstanding : List ℕ

/-- The place of a node in the tree; `none` if its range overlaps another. -/
def nodeLink (new : IdPoolNode) : List IdPoolNode → Option (List IdPoolNode)
  | [] => some [new]
  | entry :: rest =>
    if new.idEnd ≤ entry.idStart then some (new :: entry :: rest)
    else if entry.idEnd ≤ new.idStart then (nodeLink new rest).map (entry :: ·)
    else none

/-- `idr_alloc`: the smallest unused id. -/
def idrAlloc (idr : List ℕ) (start stop : ℕ) : Option ℕ :=
  (List.range' start (stop - start)).find? (· ∉ idr)

variable (s : IdPool)

/-- The pool after `id_pool_node_add`, and whether it succeeded. -/
def idPoolNodeAdd (new : IdPoolNode) : IdPool × Bool :=
  if maxIdPoolNum ≤ s.poolNum then (s, false)
  else if (s.idTotalNum + new.idTotalNum) % 2 ^ 32 < s.idTotalNum then (s, false)
  else
    match nodeLink new s.nodes with
    | none => (s, false)
    | some nodes =>
      ({ s with
        nodes := nodes
        poolNum := s.poolNum + 1
        idTotalNum := (s.idTotalNum + new.idTotalNum) % 2 ^ 32 }, true)

def idPoolAttrCheck (idStart idTotalNum : ℕ) : Bool :=
  idTotalNum ≠ 0 && idStart ≤ (idStart + idTotalNum) % 2 ^ 32

/-- `mem` is whether there is memory for the node. -/
def idPoolRegister (idStart idTotalNum : ℕ) (mem : Bool) : IdPool × Bool :=
  if idPoolAttrCheck idStart idTotalNum && mem then
    idPoolNodeAdd s { idStart, idAvailNum := idTotalNum, idTotalNum, idr := [] }
  else (s, false)

def idPoolUnregister (idStart idTotalNum : ℕ) : IdPool :=
  if idPoolAttrCheck idStart idTotalNum then
    match s.nodes.find? fun n => n.idStart = idStart ∧ n.idTotalNum = idTotalNum with
    | none => s
    | some n =>
      { s with
        nodes := s.nodes.erase n
        poolNum := s.poolNum - 1
        idTotalNum := s.idTotalNum - n.idTotalNum
        outstanding := s.outstanding.filter (· ∉ n.idr) }
  else s

/-- The ids of a node that an allocation looks at: all of them, or those in a range. -/
def idWindow (range : Option (ℕ × ℕ)) (n : IdPoolNode) : Option (ℕ × ℕ) :=
  match range with
  | none => some (n.idStart, n.idEnd)
  | some (start, stop) =>
    if n.idEnd ≤ start ∨ stop ≤ n.idStart then none
    else some (max start n.idStart, min stop n.idEnd)

/-- The walks of `_id_pool_alloc` and `_id_pool_alloc_range`. -/
def nodesAlloc (range : Option (ℕ × ℕ)) : List IdPoolNode → Option (ℕ × List IdPoolNode)
  | [] => none
  | n :: rest =>
    match (idWindow range n).bind fun w => idrAlloc n.idr w.1 w.2 with
    | some id => some (id, { n with idr := id :: n.idr, idAvailNum := n.idAvailNum - 1 } :: rest)
    | none => (nodesAlloc range rest).map fun r => (r.1, n :: r.2)

/-- `id_pool_alloc`, and with a range `id_pool_alloc_by_range`. -/
def idPoolAlloc (range : Option (ℕ × ℕ)) : Option (ℕ × IdPool) :=
  (nodesAlloc range s.nodes).map fun r =>
    (r.1, { s with
      nodes := r.2
      handedOut := r.1 :: s.handedOut
      outstanding := r.1 :: s.outstanding })

/-- The node of the id takes it back. -/
def nodesFree (id : ℕ) : List IdPoolNode → Option (List IdPoolNode)
  | [] => none
  | n :: rest =>
    if n.idStart ≤ id ∧ id < n.idEnd then
      if id ∈ n.idr then
        some ({ n with idr := n.idr.erase id, idAvailNum := n.idAvailNum + 1 } :: rest)
      else none
    else (nodesFree id rest).map (n :: ·)

def idPoolFree (id : ℕ) : IdPool :=
  match nodesFree id s.nodes with
  | none => s
  | some nodes =>
    { s with
      nodes := nodes
      handedOut := s.handedOut.erase id
      outstanding := s.outstanding.erase id }

inductive IdRangeOp
  | register (idStart idTotalNum : ℕ) (mem : Bool)
  | unregister (idStart idTotalNum : ℕ)
  | alloc (range : Option (ℕ × ℕ))
  | free (id : ℕ)

/-- The ids are below `2 ^ 31`, as an `idr` has them. -/
def idRangeStep (s : IdPool) : IdRangeOp → Option IdPool
  | .register idStart idTotalNum mem =>
      if idStart + idTotalNum ≤ 2 ^ 31 then some (idPoolRegister s idStart idTotalNum mem).1
      else none
  | .unregister idStart idTotalNum => some (idPoolUnregister s idStart idTotalNum)
  | .alloc range => some (((idPoolAlloc s range).map Prod.snd).getD s)
  | .free id => some (idPoolFree s id)

def emptyPool : IdPool where
  nodes := []
  poolNum := 0
  idTotalNum := 0
  handedOut := []
  outstanding := []

def idRangeMachine : Machine IdPool IdRangeOp where
  init s := s = emptyPool
  step := idRangeStep

/-! ### The nodes -/

variable {s} {t : IdPool} {n m new : IdPoolNode} {l l' : List IdPoolNode} {id : ℕ}
  {range : Option (ℕ × ℕ)}

def IdPoolNode.has (n : IdPoolNode) (id : ℕ) : Prop := n.idStart ≤ id ∧ id < n.idEnd

instance (n : IdPoolNode) : DecidablePred n.has := fun id =>
  inferInstanceAs (Decidable (n.idStart ≤ id ∧ id < n.idEnd))

/-- The ids of a node that are out are ids of its range, and the others are available. -/
structure NodeOk (n : IdPoolNode) : Prop where
  nodup : n.idr.Nodup
  range : ∀ id ∈ n.idr, n.has id
  avail : n.idAvailNum + n.idr.length = n.idTotalNum

/-- The ids of the nodes that are out. -/
def idsOut (l : List IdPoolNode) : List ℕ := l.flatMap IdPoolNode.idr

/-- The ranges are apart, in their order. -/
def Sorted (l : List IdPoolNode) : Prop := l.Pairwise fun n m => n.idEnd ≤ m.idStart

structure NodesOk (l : List IdPoolNode) : Prop where
  sorted : Sorted l
  each : ∀ n ∈ l, NodeOk n

namespace NodesOk

theorem tail (h : NodesOk (n :: l)) : NodesOk l where
  sorted := (List.pairwise_cons.mp h.sorted).2
  each := fun m hm => h.each m (.tail _ hm)

theorem cons (hn : NodeOk n) (hl : NodesOk l) (hsorted : ∀ m ∈ l, n.idEnd ≤ m.idStart) :
    NodesOk (n :: l) where
  sorted := List.pairwise_cons.mpr ⟨hsorted, hl.sorted⟩
  each := fun m hm => by
    rcases List.mem_cons.mp hm with rfl | hm
    · exact hn
    · exact hl.each m hm

theorem apart (h : NodesOk (n :: l)) (hm : m ∈ l) : n.idEnd ≤ m.idStart :=
  (List.pairwise_cons.mp h.sorted).1 m hm

/-- An id that is out is in the range of its node. -/
theorem mem_idsOut (h : NodesOk l) (hid : id ∈ idsOut l) : ∃ n ∈ l, n.has id ∧ id ∈ n.idr := by
  obtain ⟨n, hn, hid⟩ := List.mem_flatMap.mp hid
  exact ⟨n, hn, (h.each n hn).range id hid, hid⟩

/-- The ids of the other nodes are not in the range of the first one. -/
theorem not_has (h : NodesOk (n :: l)) (hid : id ∈ idsOut l) : ¬ n.has id := by
  obtain ⟨m, hm, hhas, -⟩ := h.tail.mem_idsOut hid
  have happart := h.apart hm
  rintro ⟨-, hlt⟩
  have hle := hhas.1
  omega

theorem nodup (h : NodesOk l) : (idsOut l).Nodup := by
  induction l with
  | nil => exact List.nodup_nil
  | cons n l ih =>
    have hn := h.each n (.head _)
    rw [idsOut, List.flatMap_cons, List.nodup_append]
    refine ⟨hn.nodup, ih h.tail, fun a ha b hb => ?_⟩
    rintro rfl
    exact h.not_has hb (hn.range a ha)

end NodesOk

/-- A node that is put between the others. -/
theorem nodeLink_spec (h : nodeLink new l = some l') : l'.Perm (new :: l) := by
  induction l generalizing l' with
  | nil => exact Option.some.inj h ▸ .refl _
  | cons entry rest ih =>
    rw [nodeLink] at h
    split_ifs at h
    · exact Option.some.inj h ▸ .refl _
    · obtain ⟨k, hk, rfl⟩ := Option.map_eq_some_iff.mp h
      exact ((ih hk).cons entry).trans (.swap ..)

theorem NodesOk.link (h : NodesOk l) (hnew : NodeOk new) (hlink : nodeLink new l = some l') :
    NodesOk l' := by
  induction l generalizing l' with
  | nil =>
    obtain rfl := Option.some.inj hlink
    exact cons hnew h (by simp)
  | cons entry rest ih =>
    rw [nodeLink] at hlink
    split_ifs at hlink with hbefore hafter
    · obtain rfl := Option.some.inj hlink
      refine cons hnew h fun m hm => ?_
      rcases List.mem_cons.mp hm with rfl | hm
      · exact hbefore
      · have happart := h.apart hm
        simp only [IdPoolNode.idEnd] at hbefore happart ⊢
        omega
    · obtain ⟨k, hk, rfl⟩ := Option.map_eq_some_iff.mp hlink
      refine cons (h.each entry (.head _)) (ih h.tail hk) fun m hm => ?_
      rcases List.mem_cons.mp ((nodeLink_spec hk).mem_iff.mp hm) with rfl | hm
      · exact hafter
      · exact h.apart hm

/-- The id that an `idr` hands out. -/
theorem idrAlloc_spec {idr : List ℕ} {start stop : ℕ} (h : idrAlloc idr start stop = some id) :
    start ≤ id ∧ id < stop ∧ id ∉ idr := by
  have hmem := List.mem_of_find?_eq_some h
  have hnot := List.find?_some h
  rw [List.mem_range'_1] at hmem
  exact ⟨hmem.1, by omega, by simpa using hnot⟩

/-- What changes in the nodes with an allocation. -/
structure Allocated (id : ℕ) (l l' : List IdPoolNode) : Prop where
  ok : NodesOk l'
  ranges : l'.map (fun n => (n.idStart, n.idTotalNum)) = l.map fun n => (n.idStart, n.idTotalNum)
  out : (idsOut l').Perm (id :: idsOut l)

theorem mem_of_ranges {l l' : List IdPoolNode}
    (h : l'.map (fun n => (n.idStart, n.idTotalNum)) = l.map fun n => (n.idStart, n.idTotalNum))
    (hm : m ∈ l') : ∃ n ∈ l, n.idStart = m.idStart ∧ n.idEnd = m.idEnd := by
  have hmem : (m.idStart, m.idTotalNum) ∈ l'.map fun n => (n.idStart, n.idTotalNum) :=
    List.mem_map_of_mem hm
  rw [h] at hmem
  obtain ⟨n, hn, heq⟩ := List.mem_map.mp hmem
  obtain ⟨hstart, htotal⟩ := Prod.mk.inj heq
  exact ⟨n, hn, hstart, by rw [IdPoolNode.idEnd, IdPoolNode.idEnd, hstart, htotal]⟩

theorem NodesOk.alloc (h : NodesOk l) (halloc : nodesAlloc range l = some (id, l')) :
    Allocated id l l' := by
  induction l generalizing l' with
  | nil => cases halloc
  | cons n rest ih =>
    have hn := h.each n (.head _)
    rw [nodesAlloc] at halloc
    split at halloc
    · next i hfound =>
      obtain ⟨rfl, rfl⟩ := Prod.mk.inj (Option.some.inj halloc)
      obtain ⟨w, hw, hidr⟩ := Option.bind_eq_some_iff.mp hfound
      obtain ⟨hlo, hhi, hnot⟩ := idrAlloc_spec hidr
      have hrange : n.has i := by
        unfold idWindow at hw
        split at hw
        · obtain rfl := Option.some.inj hw
          exact ⟨hlo, hhi⟩
        · split_ifs at hw
          obtain rfl := Option.some.inj hw
          exact ⟨Nat.le_trans (Nat.le_max_right ..) hlo, Nat.lt_of_lt_of_le hhi (Nat.min_le_right ..)⟩
      have hroom : n.idr.length < n.idTotalNum := by
        have hsub : (i :: n.idr).length ≤ (List.range' n.idStart n.idTotalNum).length := by
          refine (List.subperm_of_subset (List.nodup_cons.mpr ⟨hnot, hn.nodup⟩) ?_).length_le
          intro j hj
          rw [List.mem_range'_1]
          rcases List.mem_cons.mp hj with rfl | hj
          · exact hrange
          · exact hn.range j hj
        simp only [List.length_cons, List.length_range'] at hsub
        omega
      have havail := hn.avail
      refine ⟨NodesOk.cons ⟨?_, ?_, ?_⟩ h.tail fun m hm => h.apart hm, rfl, .refl _⟩
      · exact List.nodup_cons.mpr ⟨hnot, hn.nodup⟩
      · intro j hj
        rcases List.mem_cons.mp hj with rfl | hj
        · exact hrange
        · exact hn.range j hj
      · simp only [List.length_cons]
        omega
    · obtain ⟨⟨i, k⟩, hk, heq⟩ := Option.map_eq_some_iff.mp halloc
      obtain ⟨rfl, rfl⟩ := Prod.mk.inj heq
      have rest := ih h.tail hk
      refine ⟨NodesOk.cons hn rest.ok fun m hm => ?_, ?_, ?_⟩
      · obtain ⟨m', hm', hstart, -⟩ := mem_of_ranges rest.ranges hm
        exact hstart ▸ h.apart hm'
      · exact congrArg (List.cons _) rest.ranges
      · exact (rest.out.append_left n.idr).trans List.perm_middle

theorem NodesOk.free (h : NodesOk l) (hfree : nodesFree id l = some l') :
    NodesOk l' ∧ l'.map (fun n => (n.idStart, n.idTotalNum)) =
      l.map (fun n => (n.idStart, n.idTotalNum)) ∧ (id :: idsOut l').Perm (idsOut l) := by
  induction l generalizing l' with
  | nil => cases hfree
  | cons n rest ih =>
    have hn := h.each n (.head _)
    rw [nodesFree] at hfree
    split_ifs at hfree with hhas hmem
    · obtain rfl := Option.some.inj hfree
      have havail := hn.avail
      have hlen := List.length_erase_of_mem hmem
      have hpos := List.length_pos_of_mem hmem
      refine ⟨NodesOk.cons ⟨hn.nodup.erase id, fun j hj => hn.range j (List.mem_of_mem_erase hj), ?_⟩
        h.tail fun m hm => h.apart hm, rfl, ?_⟩
      · simp only [hlen]
        omega
      · exact (List.perm_cons_erase hmem).symm.append_right (idsOut rest)
    · obtain ⟨k, hk, rfl⟩ := Option.map_eq_some_iff.mp hfree
      obtain ⟨ok, ranges, out⟩ := ih h.tail hk
      refine ⟨NodesOk.cons hn ok fun m hm => ?_, congrArg (List.cons _) ranges, ?_⟩
      · obtain ⟨m', hm', hstart, -⟩ := mem_of_ranges ranges hm
        exact hstart ▸ h.apart hm'
      · exact List.perm_middle.symm.trans (out.append_left n.idr)

/-! ### The pool -/

/-- The sum of the sizes of the ranges. -/
def totalNum (l : List IdPoolNode) : ℕ := (l.map IdPoolNode.idTotalNum).sum

structure RangesInv (s : IdPool) : Prop where
  nodes : NodesOk s.nodes
  num : s.poolNum = s.nodes.length
  max : s.nodes.length ≤ maxIdPoolNum
  total : s.idTotalNum = totalNum s.nodes
  out : s.outstanding.Perm (idsOut s.nodes)
  small : ∀ n ∈ s.nodes, n.idEnd ≤ 2 ^ 31

theorem totalNum_of_ranges
    (h : l'.map (fun n => (n.idStart, n.idTotalNum)) = l.map fun n => (n.idStart, n.idTotalNum)) :
    totalNum l' = totalNum l ∧ l'.length = l.length := by
  have totals : l'.map IdPoolNode.idTotalNum = l.map IdPoolNode.idTotalNum := by
    have hsnd := congrArg (List.map Prod.snd) h
    rw [List.map_map, List.map_map] at hsnd
    exact hsnd
  refine ⟨by rw [totalNum, totals, totalNum], ?_⟩
  simpa using congrArg List.length h

theorem totalNum_perm (h : l'.Perm l) : totalNum l' = totalNum l := (h.map _).sum_eq

/-- Ranges that are apart fit in the numbers below their end. -/
theorem totalNum_le {stop : ℕ} (h : Sorted l) (hstop : ∀ n ∈ l, n.idEnd ≤ stop) :
    ∀ start, (∀ n ∈ l, start ≤ n.idStart) → start ≤ stop → start + totalNum l ≤ stop := by
  induction l with
  | nil =>
    intro start _ hle
    simpa [totalNum] using hle
  | cons n l ih =>
    intro start hstart _
    have hend := hstop n (.head _)
    have hs := hstart n (.head _)
    obtain ⟨happart, hsorted⟩ := List.pairwise_cons.mp h
    have rest := ih hsorted (fun m hm => hstop m (.tail _ hm)) n.idEnd happart hend
    have hsum : totalNum (n :: l) = n.idTotalNum + totalNum l := by simp [totalNum]
    simp only [IdPoolNode.idEnd] at rest
    omega

namespace RangesInv

theorem empty : RangesInv emptyPool where
  nodes := ⟨List.Pairwise.nil, by simp [emptyPool]⟩
  num := rfl
  max := by simp [emptyPool]
  total := rfl
  out := .refl _
  small := by simp [emptyPool]

theorem register (h : RangesInv s) {idStart idTotalNum : ℕ} {mem : Bool}
    (hsmall : idStart + idTotalNum ≤ 2 ^ 31) :
    RangesInv (idPoolRegister s idStart idTotalNum mem).1 := by
  unfold idPoolRegister
  split
  · unfold idPoolNodeAdd
    split_ifs with hmax hwrap
    · exact h
    · exact h
    split
    · exact h
    · next nodes hlink =>
      have hperm := nodeLink_spec hlink
      have hnew : NodeOk { idStart, idAvailNum := idTotalNum, idTotalNum, idr := [] } :=
        ⟨List.nodup_nil, by simp, by simp⟩
      have hnodes := h.nodes.link hnew hlink
      have hsmall' : ∀ n ∈ nodes, n.idEnd ≤ 2 ^ 31 := by
        intro n hn
        rcases List.mem_cons.mp (hperm.mem_iff.mp hn) with rfl | hn
        · exact hsmall
        · exact h.small n hn
      have htotal : totalNum nodes = idTotalNum + totalNum s.nodes := by
        rw [totalNum_perm hperm]
        simp [totalNum]
      have hfit := totalNum_le hnodes.sorted hsmall' 0 (by simp) (by simp)
      have hlen := hperm.length_eq
      rw [List.length_cons] at hlen
      have hnum := h.num
      refine ⟨hnodes, ?_, ?_, ?_, ?_, hsmall'⟩
      · dsimp only
        omega
      · dsimp only
        omega
      · have hold := h.total
        dsimp only
        rw [Nat.mod_eq_of_lt (by omega)]
        omega
      · refine h.out.trans ?_
        have hflat := hperm.flatMap_right IdPoolNode.idr
        simpa [idsOut] using hflat.symm
  · exact h

theorem unregister (h : RangesInv s) (idStart idTotalNum : ℕ) :
    RangesInv (idPoolUnregister s idStart idTotalNum) := by
  unfold idPoolUnregister
  split
  · split
    · exact h
    · next n hfind =>
      have hn := List.mem_of_find?_eq_some hfind
      have hperm := List.perm_cons_erase hn
      have hlen := hperm.length_eq
      rw [List.length_cons] at hlen
      have htotal : totalNum s.nodes = n.idTotalNum + totalNum (s.nodes.erase n) := by
        rw [totalNum_perm hperm]
        simp [totalNum]
      have hnum := h.num
      have hmax := h.max
      have hold := h.total
      have hout : (idsOut s.nodes).Perm (n.idr ++ idsOut (s.nodes.erase n)) := by
        simpa [idsOut] using hperm.flatMap_right IdPoolNode.idr
      refine ⟨⟨h.nodes.sorted.sublist List.erase_sublist, fun m hm =>
          h.nodes.each m (List.mem_of_mem_erase hm)⟩, ?_, ?_, ?_, ?_, fun m hm =>
          h.small m (List.mem_of_mem_erase hm)⟩
      · dsimp only
        omega
      · dsimp only
        omega
      · dsimp only
        omega
      · -- the ids of the node go, and those of the others stay
        refine ((h.out.trans hout).filter _).trans ?_
        have hnodup := hout.nodup_iff.mp h.nodes.nodup
        rw [List.filter_append, List.filter_eq_nil_iff.mpr (by simp), List.nil_append,
          List.filter_eq_self.mpr]
        intro i hi
        have hnot := (List.nodup_append.mp hnodup).2.2
        simpa using fun hmem => hnot i hmem i hi rfl
  · exact h

/-- What changes in the pool when ids go in or out of the nodes. -/
theorem sameRanges (h : RangesInv s) (hnodes : NodesOk t.nodes)
    (hranges : t.nodes.map (fun n => (n.idStart, n.idTotalNum)) =
      s.nodes.map fun n => (n.idStart, n.idTotalNum))
    (hnum : t.poolNum = s.poolNum) (htotal : t.idTotalNum = s.idTotalNum)
    (hout : t.outstanding.Perm (idsOut t.nodes)) : RangesInv t where
  nodes := hnodes
  num := by rw [hnum, h.num, (totalNum_of_ranges hranges).2]
  max := (totalNum_of_ranges hranges).2 ▸ h.max
  total := by rw [htotal, h.total, (totalNum_of_ranges hranges).1]
  out := hout
  small := fun m hm => by
    obtain ⟨n, hn, -, hend⟩ := mem_of_ranges hranges hm
    exact hend ▸ h.small n hn

theorem alloc (h : RangesInv s) (halloc : idPoolAlloc s range = some (id, t)) :
    RangesInv t ∧ id ∉ s.outstanding ∧ ∃ n ∈ s.nodes, n.has id := by
  obtain ⟨⟨i, nodes⟩, hnodes, heq⟩ := Option.map_eq_some_iff.mp halloc
  obtain ⟨rfl, rfl⟩ := Prod.mk.inj heq
  have done := h.nodes.alloc hnodes
  refine ⟨h.sameRanges done.ok done.ranges rfl rfl ((h.out.cons i).trans done.out.symm), ?_, ?_⟩
  · rw [h.out.mem_iff]
    exact (List.nodup_cons.mp (done.out.nodup_iff.mp done.ok.nodup)).1
  · obtain ⟨m, hm, hhas, -⟩ := done.ok.mem_idsOut (done.out.mem_iff.mpr (.head _))
    obtain ⟨n, hn, hstart, hend⟩ := mem_of_ranges done.ranges hm
    exact ⟨n, hn, hstart ▸ hhas.1, hend ▸ hhas.2⟩

theorem free (h : RangesInv s) (id : ℕ) : RangesInv (idPoolFree s id) := by
  unfold idPoolFree
  split
  · exact h
  · next nodes hfree =>
    obtain ⟨ok, ranges, out⟩ := h.nodes.free hfree
    refine h.sameRanges ok ranges rfl rfl ?_
    have herase := (h.out.trans out.symm).erase id
    rwa [List.erase_cons_head] at herase

theorem step (h : RangesInv s) {op : IdRangeOp} (hstep : idRangeStep s op = some t) :
    RangesInv t := by
  cases op with
  | register idStart idTotalNum mem =>
    simp only [idRangeStep, Option.ite_none_right_eq_some, Option.some.injEq] at hstep
    obtain ⟨hsmall, rfl⟩ := hstep
    exact h.register hsmall
  | unregister idStart idTotalNum =>
    obtain rfl := Option.some.inj hstep
    exact h.unregister ..
  | alloc range =>
    obtain rfl := Option.some.inj hstep
    cases halloc : idPoolAlloc s range with
    | none => exact h
    | some r => exact (h.alloc halloc).1
  | free id =>
    obtain rfl := Option.some.inj hstep
    exact h.free id

end RangesInv

/-- What a pool promises.  The outstanding ids are the ones of the registered ranges: an
unregistered range takes its ids back. -/
structure PoolOk (s : IdPool) : Prop where
  apart : s.nodes.Pairwise fun n m => n.idEnd ≤ m.idStart
  max : s.poolNum = s.nodes.length ∧ s.nodes.length ≤ maxIdPoolNum
  total : s.idTotalNum = (s.nodes.map IdPoolNode.idTotalNum).sum
  nodup : s.outstanding.Nodup
  registered : ∀ id ∈ s.outstanding, ∃ n ∈ s.nodes, n.has id
  avail : ∀ n ∈ s.nodes, n.idAvailNum + s.outstanding.countP (n.has ·) = n.idTotalNum
  allocated : ∀ range id t, idPoolAlloc s range = some (id, t) →
    id ∉ s.outstanding ∧ (∃ n ∈ s.nodes, n.has id) ∧ t.outstanding = id :: s.outstanding
  refused : ∀ idStart idTotalNum mem, (idPoolRegister s idStart idTotalNum mem).2 = false →
    (idPoolRegister s idStart idTotalNum mem).1 = s

/-- The ids that are out and in the range of a node are the ones of the node. -/
theorem NodesOk.countP (h : NodesOk l) (hn : n ∈ l) :
    (idsOut l).countP (n.has ·) = n.idr.length := by
  induction l with
  | nil => cases hn
  | cons m l ih =>
    rw [idsOut, List.flatMap_cons, List.countP_append]
    rcases List.mem_cons.mp hn with rfl | hn
    · have rest : (idsOut l).countP (n.has ·) = 0 :=
        List.countP_eq_zero.mpr fun id hid => by simpa using h.not_has hid
      have own : n.idr.countP (n.has ·) = n.idr.length :=
        List.countP_eq_length.mpr fun id hid => by simpa using (h.each n (.head _)).range id hid
      rw [own]
      exact Nat.add_eq_left.mpr rest
    · have first : m.idr.countP (n.has ·) = 0 := by
        refine List.countP_eq_zero.mpr fun id hid => ?_
        have hm := (h.each m (.head _)).range id hid
        have happart := h.apart hn
        have hend := hm.2
        rw [decide_eq_true_eq]
        rintro ⟨hle, -⟩
        omega
      rw [first, Nat.zero_add]
      exact ih h.tail hn

theorem RangesInv.poolOk (h : RangesInv s) : PoolOk s where
  apart := h.nodes.sorted
  max := ⟨h.num, h.max⟩
  total := h.total
  nodup := h.out.nodup_iff.mpr h.nodes.nodup
  registered := fun id hid => by
    obtain ⟨n, hn, hhas, -⟩ := h.nodes.mem_idsOut (h.out.mem_iff.mp hid)
    exact ⟨n, hn, hhas⟩
  avail := fun n hn => by
    rw [h.out.countP_eq, h.nodes.countP hn]
    exact (h.nodes.each n hn).avail
  allocated := fun range id t halloc => by
    obtain ⟨-, hnot, hrange⟩ := h.alloc halloc
    obtain ⟨r, -, heq⟩ := Option.map_eq_some_iff.mp halloc
    obtain ⟨rfl, rfl⟩ := Prod.mk.inj heq
    exact ⟨hnot, hrange, rfl⟩
  refused := fun idStart idTotalNum mem hfail => by
    unfold idPoolRegister idPoolNodeAdd at hfail ⊢
    split
    · next hcheck =>
      rw [if_pos hcheck] at hfail
      split_ifs at hfail ⊢
      · rfl
      · rfl
      · split at hfail
        · rfl
        · cases hfail
    · rfl

theorem pool_ok (h : idRangeMachine.Reach s) : PoolOk s := by
  have inv : RangesInv s :=
    h.invariant (fun _ hs => hs ▸ RangesInv.empty) fun _ _ _ hs _ hstep => hs.step hstep
  exact inv.poolOk

/-- Two ranges; an id of the first one is allocated, one is taken from the second one, and
the first one is unregistered. -/
def rangesRun : List IdRangeOp :=
  [.register 8 4 true, .register 0 4 true, .register 2 8 true, .alloc none,
    .alloc (some (6, 10)), .unregister 0 4]

theorem pool_ok_ranges :
    PoolOk (idRangeMachine.final emptyPool rangesRun) ∧
      (idRangeMachine.final emptyPool rangesRun).outstanding = [8] :=
  ⟨pool_ok (Machine.Reach.final (.start rfl) (by decide +kernel)), by decide +kernel⟩

/-- A range is registered again, while an id of it is held. -/
def againRun : List IdRangeOp :=
  [.register 0 4 true, .alloc none, .unregister 0 4, .register 0 4 true, .alloc none]

/-- The id is allocated a second time, and was not freed. -/
theorem id_allocated_twice :
    (idRangeMachine.run emptyPool againRun).isSome ∧
      ¬ (idRangeMachine.final emptyPool againRun).handedOut.Nodup :=
  ⟨by decide +kernel, by decide +kernel⟩

end OpiaiKernel.Trs.IdRanges
