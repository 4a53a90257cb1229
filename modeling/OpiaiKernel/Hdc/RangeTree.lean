import Mathlib.Algebra.Ring.Nat
import Mathlib.Data.List.Nodup
import Mathlib.Data.List.Perm.Subperm

/-!
# Trees of disjoint ranges

A binary search tree whose nodes are ranges of a 64-bit address space, in the order of
their starts.  Search, conflict check and insertion walk down from the root; the shape of
the tree is left open.
-/

namespace OpiaiKernel.Hdc

/-- The range of a `struct hdcdrv_fast_node`. -/
structure FastNode where
  userVa : UInt64
  allocLen : UInt32
  deriving DecidableEq, Repr

inductive FastTree
  | nil
  | node (left : FastTree) (this : FastNode) (right : FastTree)
  deriving DecidableEq, Repr

namespace FastTree

def toList : FastTree → List FastNode
  | nil => []
  | node left this right => left.toList ++ this :: right.toList

@[simp] theorem toList_nil : nil.toList = [] := rfl

@[simp] theorem toList_node (left right : FastTree) (this : FastNode) :
    (node left this right).toList = left.toList ++ this :: right.toList := rfl

end FastTree

/-- A length as it is added to an address after its conversion to `int`. -/
def signExtend (len : UInt32) : UInt64 :=
  if len < 0x80000000 then len.toUInt64 else len.toUInt64 + 0xFFFFFFFF00000000

/-- The walk of `hdcdrv_fast_nodes_conflict`. -/
def hdcdrvFastNodesConflict (newNode : FastNode) : FastTree → Option FastNode
  | .nil => none
  | .node left this right =>
      if newNode.userVa < this.userVa then
        if newNode.userVa + signExtend newNode.allocLen > this.userVa then some this
        else hdcdrvFastNodesConflict newNode left
      else if newNode.userVa > this.userVa then
        if newNode.userVa < this.userVa + this.allocLen.toUInt64 then some this
        else hdcdrvFastNodesConflict newNode right
      else some this

/-- The walk of `hdcdrv_fast_node_arry_is_exist`. -/
def hdcdrvFastNodeArryIsExist (vaAddr : UInt64) (len : UInt32) : FastTree → Option FastNode
  | .nil => none
  | .node left this right =>
      if vaAddr < this.userVa then hdcdrvFastNodeArryIsExist vaAddr len left
      else if vaAddr > this.userVa then
        let rootEndVa := this.userVa + this.allocLen.toUInt64
        if vaAddr + len.toUInt64 ≤ rootEndVa then some this
        else if rootEndVa > vaAddr then none
        else hdcdrvFastNodeArryIsExist vaAddr len right
      else if len > this.allocLen then none
      else some this

/-- The walk of `hdcdrv_fast_node_insert_new`, before the tree is balanced. -/
def hdcdrvFastNodeInsertNew (newNode : FastNode) : FastTree → Option FastTree
  | .nil => some (.node .nil newNode .nil)
  | .node left this right =>
      if newNode.userVa < this.userVa then
        (hdcdrvFastNodeInsertNew newNode left).map fun left => .node left this right
      else if newNode.userVa > this.userVa then
        (hdcdrvFastNodeInsertNew newNode right).map fun right => .node left this right
      else none

/-- The walk of `hdcdrv_fast_node_search_new`. -/
def hdcdrvFastNodeSearchNew (userVa : UInt64) : FastTree → Option FastNode
  | .nil => none
  | .node left this right =>
      if userVa < this.userVa then hdcdrvFastNodeSearchNew userVa left
      else if userVa > this.userVa then hdcdrvFastNodeSearchNew userVa right
      else some this

def hdcdrvFastNodeArrySearch (vaAddr : UInt64) (len : UInt32) (root : FastTree) :
    Option FastNode :=
  if len = 0 then hdcdrvFastNodeSearchNew vaAddr root
  else hdcdrvFastNodeArryIsExist vaAddr len root

/-! ## Ranges -/

namespace FastNode

/-- The address behind the range. -/
def stop (n : FastNode) : ℕ := n.userVa.toNat + n.allocLen.toNat

/-- The length is a positive `int` or zero, and the range does not wrap. -/
def Fits (n : FastNode) : Prop := n.allocLen.toNat < 2 ^ 31 ∧ n.stop < 2 ^ 64

/-- `m` lies before `n`. -/
def Before (m n : FastNode) : Prop := m.stop ≤ n.userVa.toNat ∧ m.userVa.toNat < n.userVa.toNat

/-- The range contains `len` bytes from `vaAddr`. -/
def Contains (n : FastNode) (vaAddr : UInt64) (len : UInt32) : Prop :=
  n.userVa.toNat ≤ vaAddr.toNat ∧ vaAddr.toNat + len.toNat ≤ n.stop

instance (n : FastNode) : Decidable n.Fits := inferInstanceAs (Decidable (_ ∧ _))

end FastNode

variable {l m n : FastNode} {vaAddr : UInt64} {len : UInt32} {t t' : FastTree}

theorem FastNode.Before.trans (hlm : l.Before m) (hmn : m.Before n) : l.Before n :=
  ⟨by have := hlm.1; have := hmn.2; omega, by have := hlm.2; have := hmn.2; omega⟩

theorem toNat_add_len (h : vaAddr.toNat + len.toNat < 2 ^ 64) :
    (vaAddr + len.toUInt64).toNat = vaAddr.toNat + len.toNat := by
  rw [UInt64.toNat_add, UInt32.toNat_toUInt64, Nat.mod_eq_of_lt h]

theorem signExtend_of_lt (h : len.toNat < 2 ^ 31) : signExtend len = len.toUInt64 := by
  rw [signExtend, if_pos]
  rw [UInt32.lt_iff_toNat_lt]
  exact h

/-- The ranges of a tree lie one behind the other. -/
structure FastTree.Ordered (t : FastTree) : Prop where
  before : t.toList.Pairwise FastNode.Before
  fits : ∀ n ∈ t.toList, n.Fits

section Node

variable {left right : FastTree}

theorem FastTree.Ordered.ofLeft (h : (FastTree.node left m right).Ordered) : left.Ordered where
  before := (List.pairwise_append.mp h.before).1
  fits n hn := h.fits n (List.mem_append_left _ hn)

theorem FastTree.Ordered.ofRight (h : (FastTree.node left m right).Ordered) : right.Ordered where
  before := (List.pairwise_cons.mp (List.pairwise_append.mp h.before).2.1).2
  fits n hn := h.fits n (List.mem_append_right _ (List.mem_cons_of_mem _ hn))

theorem FastTree.Ordered.ofThis (h : (FastTree.node left m right).Ordered) : m.Fits :=
  h.fits m (List.mem_append_right _ List.mem_cons_self)

theorem FastTree.Ordered.left_before (h : (FastTree.node left m right).Ordered)
    (hn : n ∈ left.toList) : n.Before m :=
  (List.pairwise_append.mp h.before).2.2 n hn m List.mem_cons_self

theorem FastTree.Ordered.before_right (h : (FastTree.node left m right).Ordered)
    (hn : n ∈ right.toList) : m.Before n :=
  (List.pairwise_cons.mp (List.pairwise_append.mp h.before).2.1).1 n hn

theorem FastTree.mem_node :
    n ∈ (FastTree.node left m right).toList ↔ n ∈ left.toList ∨ n = m ∨ n ∈ right.toList := by
  rw [FastTree.toList_node, List.mem_append, List.mem_cons]

end Node

/-! ## The walks -/

/-- A range without a conflict lies before or behind every range of the tree. -/
theorem hdcdrvFastNodesConflict_none (h : t.Ordered) (hn : n.Fits)
    (hnone : hdcdrvFastNodesConflict n t = none) (hm : m ∈ t.toList) :
    n.Before m ∨ m.Before n := by
  induction t with
  | nil => exact absurd hm List.not_mem_nil
  | node left this right ihl ihr =>
      have hthis := h.ofThis
      rw [hdcdrvFastNodesConflict, signExtend_of_lt hn.1] at hnone
      split_ifs at hnone with hlt hend hgt hin
      · have hbefore : n.Before this := by
          rw [gt_iff_lt, UInt64.lt_iff_toNat_lt, toNat_add_len hn.2] at hend
          rw [UInt64.lt_iff_toNat_lt] at hlt
          exact ⟨Nat.not_lt.mp hend, hlt⟩
        obtain hm | rfl | hm := FastTree.mem_node.mp hm
        · exact ihl h.ofLeft hnone hm
        · exact .inl hbefore
        · exact .inl (hbefore.trans (h.before_right hm))
      · have hbefore : this.Before n := by
          rw [UInt64.lt_iff_toNat_lt, toNat_add_len hthis.2] at hin
          rw [gt_iff_lt, UInt64.lt_iff_toNat_lt] at hgt
          exact ⟨Nat.not_lt.mp hin, hgt⟩
        obtain hm | rfl | hm := FastTree.mem_node.mp hm
        · exact .inr ((h.left_before hm).trans hbefore)
        · exact .inr hbefore
        · exact ihr h.ofRight hnone hm

/-- A range without a conflict is inserted in its place. -/
theorem hdcdrvFastNodeInsertNew_some (h : t.Ordered) (hn : n.Fits)
    (hapart : ∀ m ∈ t.toList, n.Before m ∨ m.Before n) :
    ∃ t', hdcdrvFastNodeInsertNew n t = some t' ∧ t'.toList.Perm (n :: t.toList) ∧
      t'.Ordered := by
  induction t with
  | nil =>
      refine ⟨_, rfl, List.Perm.refl _, List.pairwise_singleton _ _, ?_⟩
      intro m hm
      rw [List.mem_singleton.mp hm]
      exact hn
  | node left this right ihl ihr =>
      rcases hapart this (FastTree.mem_node.mpr (.inr (.inl rfl))) with hbefore | hbefore
      · have hlt : n.userVa < this.userVa := UInt64.lt_iff_toNat_lt.mpr hbefore.2
        obtain ⟨left', hins, hperm, hord⟩ :=
          ihl h.ofLeft fun m hm => hapart m (FastTree.mem_node.mpr (.inl hm))
        refine ⟨.node left' this right, ?_, hperm.append_right _, ?_, ?_⟩
        · rw [hdcdrvFastNodeInsertNew, if_pos hlt, hins]
          rfl
        · rw [FastTree.toList_node, List.pairwise_append]
          refine ⟨hord.before, (List.pairwise_append.mp h.before).2.1, ?_⟩
          intro a ha b hb
          have ha' : a.Before this := by
            rcases List.mem_cons.mp (hperm.mem_iff.mp ha) with rfl | ha
            · exact hbefore
            · exact h.left_before ha
          rcases List.mem_cons.mp hb with rfl | hb
          · exact ha'
          · exact ha'.trans (h.before_right hb)
        · intro m hm
          obtain hm | rfl | hm := FastTree.mem_node.mp hm
          · exact hord.fits m hm
          · exact h.ofThis
          · exact h.ofRight.fits m hm
      · have hgt : n.userVa > this.userVa := UInt64.lt_iff_toNat_lt.mpr hbefore.2
        have hnlt : ¬n.userVa < this.userVa := by
          rw [UInt64.lt_iff_toNat_lt]
          have := hbefore.2
          omega
        obtain ⟨right', hins, hperm, hord⟩ :=
          ihr h.ofRight fun m hm => hapart m (FastTree.mem_node.mpr (.inr (.inr hm)))
        refine ⟨.node left this right', ?_, ?_, ?_, ?_⟩
        · rw [hdcdrvFastNodeInsertNew, if_neg hnlt, if_pos hgt, hins]
          rfl
        · exact ((hperm.cons this).append_left _).trans
            (((List.Perm.swap n this _).append_left _).trans List.perm_middle)
        · rw [FastTree.toList_node, List.pairwise_append, List.pairwise_cons]
          have hright : ∀ b ∈ right'.toList, this.Before b := by
            intro b hb
            rcases List.mem_cons.mp (hperm.mem_iff.mp hb) with rfl | hb
            · exact hbefore
            · exact h.before_right hb
          refine ⟨h.ofLeft.before, ⟨hright, hord.before⟩, ?_⟩
          intro a ha b hb
          rcases List.mem_cons.mp hb with rfl | hb
          · exact h.left_before ha
          · exact (h.left_before ha).trans (hright b hb)
        · intro m hm
          obtain hm | rfl | hm := FastTree.mem_node.mp hm
          · exact h.ofLeft.fits m hm
          · exact h.ofThis
          · exact hord.fits m hm

/-- The search finds the range that contains what is searched for. -/
theorem hdcdrvFastNodeArryIsExist_eq_some (h : t.Ordered) (hpos : 0 < len.toNat)
    (hwrap : vaAddr.toNat + len.toNat < 2 ^ 64) :
    hdcdrvFastNodeArryIsExist vaAddr len t = some n ↔
      n ∈ t.toList ∧ n.Contains vaAddr len := by
  induction t with
  | nil => simp [hdcdrvFastNodeArryIsExist]
  | node left this right ihl ihr =>
      have hend := toNat_add_len h.ofThis.2
      have hstop : this.stop = this.userVa.toNat + this.allocLen.toNat := rfl
      have hleft : n ∈ left.toList → n.Contains vaAddr len →
          vaAddr.toNat < this.userVa.toNat := by
        intro hn hc
        have := (h.left_before hn).1
        have := hc.2
        omega
      have hright : n ∈ right.toList → n.Contains vaAddr len →
          this.stop ≤ vaAddr.toNat ∧ this.userVa.toNat < vaAddr.toNat := by
        intro hn hc
        obtain ⟨hstart, hlt⟩ := h.before_right hn
        have := hc.1
        exact ⟨by omega, by omega⟩
      have hthis : this.Contains vaAddr len ↔
          this.userVa.toNat ≤ vaAddr.toNat ∧ vaAddr.toNat + len.toNat ≤ this.stop := Iff.rfl
      rw [hdcdrvFastNodeArryIsExist, FastTree.mem_node]
      simp only [gt_iff_lt, UInt64.lt_iff_toNat_lt, UInt64.le_iff_toNat_le,
        UInt32.lt_iff_toNat_lt, toNat_add_len hwrap, hend]
      split_ifs with hlt hgt hin hcut hlong
      · rw [ihl h.ofLeft]
        constructor
        · exact fun ⟨hn, hc⟩ => ⟨.inl hn, hc⟩
        · rintro ⟨hn | rfl | hn, hc⟩
          · exact ⟨hn, hc⟩
          · have := hthis.mp hc
            omega
          · have := hright hn hc
            omega
      · constructor
        · intro heq
          obtain rfl := Option.some.inj heq
          exact ⟨.inr (.inl rfl), hthis.mpr ⟨by omega, by omega⟩⟩
        · rintro ⟨hn | rfl | hn, hc⟩
          · have := hleft hn hc
            omega
          · rfl
          · have := (hright hn hc).1
            omega
      · refine iff_of_false id ?_
        rintro ⟨hn | rfl | hn, hc⟩
        · have := hleft hn hc
          omega
        · have := (hthis.mp hc).2
          omega
        · have := (hright hn hc).1
          omega
      · rw [ihr h.ofRight]
        constructor
        · exact fun ⟨hn, hc⟩ => ⟨.inr (.inr hn), hc⟩
        · rintro ⟨hn | rfl | hn, hc⟩
          · have := hleft hn hc
            omega
          · have := (hthis.mp hc).2
            omega
          · exact ⟨hn, hc⟩
      · refine iff_of_false id ?_
        rintro ⟨hn | rfl | hn, hc⟩
        · have := hleft hn hc
          omega
        · have := (hthis.mp hc).2
          omega
        · have := (hright hn hc).2
          omega
      · constructor
        · intro heq
          obtain rfl := Option.some.inj heq
          exact ⟨.inr (.inl rfl), hthis.mpr ⟨by omega, by omega⟩⟩
        · rintro ⟨hn | rfl | hn, hc⟩
          · have := hleft hn hc
            omega
          · rfl
          · have := (hright hn hc).2
            omega

/-- The search without a length finds the range that starts at the address. -/
theorem hdcdrvFastNodeSearchNew_eq_some (h : t.Ordered) :
    hdcdrvFastNodeSearchNew vaAddr t = some n ↔ n ∈ t.toList ∧ n.userVa = vaAddr := by
  induction t with
  | nil => simp [hdcdrvFastNodeSearchNew]
  | node left this right ihl ihr =>
      have hleft : n ∈ left.toList → n.userVa < this.userVa := fun hn =>
        UInt64.lt_iff_toNat_lt.mpr (h.left_before hn).2
      have hright : n ∈ right.toList → this.userVa < n.userVa := fun hn =>
        UInt64.lt_iff_toNat_lt.mpr (h.before_right hn).2
      rw [hdcdrvFastNodeSearchNew, FastTree.mem_node]
      split_ifs with hlt hgt
      · rw [ihl h.ofLeft]
        constructor
        · exact fun ⟨hn, hc⟩ => ⟨.inl hn, hc⟩
        · rintro ⟨hn | rfl | hn, rfl⟩
          · exact ⟨hn, rfl⟩
          · exact absurd hlt (UInt64.lt_irrefl _)
          · exact absurd (hright hn) (UInt64.lt_asymm hlt)
      · rw [ihr h.ofRight]
        constructor
        · exact fun ⟨hn, hc⟩ => ⟨.inr (.inr hn), hc⟩
        · rintro ⟨hn | rfl | hn, rfl⟩
          · exact absurd (hleft hn) hlt
          · exact absurd hgt (UInt64.lt_irrefl _)
          · exact ⟨hn, rfl⟩
      · have heq : this.userVa = vaAddr :=
          UInt64.le_antisymm (UInt64.not_lt.mp hlt) (UInt64.not_lt.mp hgt)
        constructor
        · intro hsome
          obtain rfl := Option.some.inj hsome
          exact ⟨.inr (.inl rfl), heq⟩
        · rintro ⟨hn | rfl | hn, rfl⟩
          · exact absurd (hleft hn) hlt
          · rfl
          · exact absurd (hright hn) hgt

end OpiaiKernel.Hdc
