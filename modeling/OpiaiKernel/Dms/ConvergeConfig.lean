import OpiaiKernel.Dms.Converge
import OpiaiKernel.Lib.Machine
import Mathlib.Data.List.Chain

/-!
# The diagrams of convergence

Each item of the configuration names a node and the ids that converge to it.  The item is
added to a table of nodes: its children get the parent, stand in a ring, and the ring hangs
at the parent.  A node that is a parent has the id with the converge flag.

The functions are translated from `dms_event_converge.c`.
-/

namespace OpiaiKernel.Dms.Config

abbrev EVENT_CONVERGE_ID_NUM_MIN : ℕ := 3

/-- The links of an `EVENT_CONVERGE_NODE_T`. -/
structure ConvergeNode where
  parent : Option UInt32
  childHead : Option UInt32
  broNext : Option UInt32
  deriving DecidableEq, Repr

def zeroNode : ConvergeNode := ⟨none, none, none⟩

/-- The hash table: the ids of its nodes, and the nodes. -/
structure Diagrams where
  nodes : List UInt32
  node : UInt32 → ConvergeNode

/-- `DMS_EVENT_CODE_GET_SERVERITY_ASSERTION`. -/
def getServerityAssertion (code : UInt32) : UInt32 := code &&& 0x3e000000

/-- `known` tells whether the id has an error string. -/
def dmsEventCodeValidityCheck (known : UInt32 → Bool) (code : UInt32) : Bool :=
  getServerityAssertion code = 0 && known code

def dmsEventConvergentItemCheck (known : UInt32 → Bool) (ids : List UInt32) : Bool :=
  EVENT_CONVERGE_ID_NUM_MIN ≤ ids.length && ids.length ≤ EVENT_CONVERGE_ID_NUM_MAX &&
    ids.all (dmsEventCodeValidityCheck known)

/-- The ids that are used: the flag is added where a node with the flag exists, and the last
id is left out if the first one stands among the children or has a node. -/
def dmsEventConvergentItemFix (s : Diagrams) : List UInt32 → List UInt32
  | [] => []
  | p :: rest =>
      let last := if p ∈ rest.dropLast ∨ p ∈ s.nodes then [] else rest.getLast?.toList
      addConvergeFlag p :: ((rest.dropLast.map fun c =>
        if addConvergeFlag c ∈ s.nodes then addConvergeFlag c else c) ++ last)

/-- What the allocator answers: for the array of the children, and for the node of each id. -/
structure Alloc where
  childNode : Bool
  eventNode : ℕ → Bool

def Diagrams.create (s : Diagrams) (id : UInt32) : Diagrams :=
  ⟨s.nodes ++ [id], Function.update s.node id zeroNode⟩

/-- The first loop of `dms_event_convergent_item_add` from index `i` on. -/
def findNodes (eventNode : ℕ → Bool) : ℕ → List UInt32 → Diagrams → Bool × Diagrams
  | _, [], s => (true, s)
  | i, id :: ids, s =>
      if id ∈ s.nodes then findNodes eventNode (i + 1) ids s
      else if eventNode i then findNodes eventNode (i + 1) ids (s.create id)
      else (false, s)

/-- The test of the second loop: the node has no parent and no siblings yet. -/
def Diagrams.free (s : Diagrams) (c : UInt32) : Bool :=
  (s.node c).parent = none && ((s.node c).broNext = none || (s.node c).broNext = some c)

def Diagrams.link (s : Diagrams) (c p bro : UInt32) : Diagrams :=
  let node := { s.node c with parent := some p, broNext := some bro }
  { s with node := Function.update s.node c node }

/-- The second loop, over the children that are left; the last one leads to the first. -/
def linkChildren (p first : UInt32) : List UInt32 → Diagrams → Bool × Diagrams
  | [], s => (true, s)
  | c :: cs, s =>
      if s.free c then linkChildren p first cs (s.link c p (cs.head?.getD first))
      else (false, s)

def Diagrams.adopt (s : Diagrams) (p first : UInt32) : Diagrams :=
  let node := { s.node p with childHead := some first, broNext := some p }
  { s with node := Function.update s.node p node }

def dmsEventConvergentItemAdd (alloc : Alloc) (s : Diagrams) : List UInt32 → DrvError × Diagrams
  | p :: first :: cs =>
      if alloc.childNode then
        match findNodes alloc.eventNode 0 (p :: first :: cs) s with
        | (false, s) => (.outOfMemory, s)
        | (true, s) =>
            match linkChildren p first (first :: cs) s with
            | (false, s) => (.paraError, s)
            | (true, s) => (.none, s.adopt p first)
      else (.outOfMemory, s)
  | _ => (.outOfMemory, s)

structure ItemCall where
  itemConvergeId : List UInt32
  alloc : Alloc

def dmsEventConvergentItemInit (known : UInt32 → Bool) (s : Diagrams) (call : ItemCall) :
    DrvError × Diagrams :=
  if dmsEventConvergentItemCheck known call.itemConvergeId then
    match dmsEventConvergentItemAdd call.alloc s
      (dmsEventConvergentItemFix s call.itemConvergeId) with
    | (.none, s) => (.none, s)
    | (_, s) => (.outOfMemory, s)
  else (.paraError, s)

/-- The climb of the layer check with the given number of rounds. -/
def climbLayers (s : Diagrams) : ℕ → UInt32 → ℕ
  | 0, _ => 0
  | n + 1, c =>
      match (s.node c).parent with
      | none => 0
      | some p => climbLayers s n p + 1

def dmsEventConvergentDiagramsLayerCheck (s : Diagrams) : Bool :=
  s.nodes.all fun c => (s.node c).childHead ≠ none ||
    climbLayers s (EVENT_CONVERGE_ID_NUM_MAX + 1) c ≤ EVENT_CONVERGE_DIAGRAMS_LAYER_MAX

/-- The configuration calls `dms_event_convergent_item_init` for one item after the other. -/
def configMachine (known : UInt32 → Bool) : Machine Diagrams ItemCall where
  init s := s = ⟨[], fun _ => zeroNode⟩
  step s call := some (dmsEventConvergentItemInit known s call).2

/-! ## Forests -/

/-- The `k`-th node above `c`. -/
def Diagrams.above (s : Diagrams) : ℕ → UInt32 → Option UInt32
  | 0, c => some c
  | k + 1, c => (s.node c).parent.bind (s.above k)

/-- The children of `p` form one ring from `first` on. -/
def Diagrams.Ring (s : Diagrams) (p first : UInt32) : Prop :=
  ∃ cs : List UInt32, (first :: cs).Nodup ∧
    (first :: cs ++ [first]).IsChain (fun a b => (s.node a).broNext = some b) ∧
    ∀ c, c ∈ first :: cs ↔ (s.node c).parent = some p

/-- Every node is in the ring of its parent and in no other, and no chain of parents goes on
for ever. -/
structure Diagrams.IsForest (s : Diagrams) : Prop where
  ring : ∀ p first, (s.node p).childHead = some first → s.Ring p first
  noChild : ∀ p, (s.node p).childHead = none → ∀ c, (s.node c).parent ≠ some p
  ends : ∀ c, ∃ k, s.above k c = none
  absent : ∀ c, c ∉ s.nodes → s.node c = zeroNode

/-- Nothing goes wrong: the call is refused or out of memory, or the first child is taken
already, or all children are free and different, and the parent has no children, is in no
ring with others and stands not below one of its new children. -/
def Diagrams.Sound (known : UInt32 → Bool) (s : Diagrams) (call : ItemCall) : Prop :=
  dmsEventConvergentItemCheck known call.itemConvergeId = false ∨ call.alloc.childNode = false ∨
    match dmsEventConvergentItemFix s call.itemConvergeId with
    | p :: first :: cs =>
        (findNodes call.alloc.eventNode 0 (p :: first :: cs) s).1 = false ∨
          s.free first = false ∨
          ((first :: cs).Nodup ∧ (∀ c ∈ first :: cs, s.free c = true) ∧
            (s.node p).childHead = none ∧
            ((s.node p).parent ≠ none → (s.node p).broNext = some p) ∧
            ∀ k, ∀ c ∈ first :: cs, s.above k p ≠ some c)
    | _ => True

/-- No node without children has more than three nodes above it. -/
def Diagrams.Shallow (s : Diagrams) : Prop :=
  ∀ c ∈ s.nodes, (∀ d, (s.node d).parent ≠ some c) →
    s.above (EVENT_CONVERGE_DIAGRAMS_LAYER_MAX + 1) c = none

/-- The diagrams are a forest, a call that fails leaves their links, and the layer check is
exact. -/
structure DiagramsOk (known : UInt32 → Bool) (s : Diagrams) : Prop where
  forest : s.IsForest
  failed : ∀ call, s.Sound known call → (dmsEventConvergentItemInit known s call).1 ≠ .none →
    (dmsEventConvergentItemInit known s call).2.node = s.node
  layers : dmsEventConvergentDiagramsLayerCheck s = true ↔ s.Shallow

variable {known : UInt32 → Bool} {s t : Diagrams} {p first c d : UInt32} {cs ids : List UInt32}
  {eventNode : ℕ → Bool} {i k n : ℕ}

/-! ## The loops -/

theorem node_create (h : ∀ c, c ∉ s.nodes → s.node c = zeroNode) (hc : c ∉ s.nodes) :
    (s.create c).node = s.node := by
  rw [Diagrams.create, ← h c hc, Function.update_eq_self]

/-- Looking for the nodes of the ids changes no link. -/
theorem findNodes_spec (eventNode : ℕ → Bool) (i : ℕ) (ids : List UInt32)
    (habsent : ∀ c, c ∉ s.nodes → s.node c = zeroNode) :
    (findNodes eventNode i ids s).2.node = s.node ∧
      s.nodes ⊆ (findNodes eventNode i ids s).2.nodes ∧
      ((findNodes eventNode i ids s).1 = true → ids ⊆ (findNodes eventNode i ids s).2.nodes) := by
  induction ids generalizing i s with
  | nil => exact ⟨rfl, fun _ h => h, fun _ _ h => by cases h⟩
  | cons id ids ih =>
      rw [findNodes]
      by_cases hid : id ∈ s.nodes
      · rw [if_pos hid]
        obtain ⟨hnode, hsub, hall⟩ := ih (i + 1) habsent
        refine ⟨hnode, hsub, fun hok c hc => ?_⟩
        rcases List.mem_cons.mp hc with rfl | hc
        · exact hsub hid
        · exact hall hok hc
      · rw [if_neg hid]
        by_cases hmem : eventNode i = true
        · rw [if_pos hmem]
          have hcreate := node_create habsent hid
          have habsent' : ∀ c, c ∉ (s.create id).nodes → (s.create id).node c = zeroNode := by
            intro c hc
            rw [hcreate]
            exact habsent c fun h => hc (List.mem_append_left _ h)
          obtain ⟨hnode, hsub, hall⟩ := ih (i + 1) habsent'
          refine ⟨hnode.trans hcreate, fun c hc => hsub (List.mem_append_left _ hc),
            fun hok c hc => ?_⟩
          rcases List.mem_cons.mp hc with rfl | hc
          · exact hsub (List.mem_append_right _ List.mem_cons_self)
          · exact hall hok hc
        · rw [if_neg hmem]
          exact ⟨rfl, fun _ h => h, fun h => by cases h⟩

theorem node_link_self (bro : UInt32) :
    (s.link c p bro).node c = { s.node c with parent := some p, broNext := some bro } :=
  Function.update_self _ _ _

theorem node_link_of_ne {bro : UInt32} (h : d ≠ c) : (s.link c p bro).node d = s.node d :=
  Function.update_of_ne h _ _

theorem free_congr (h : t.node c = s.node c) : t.free c = s.free c := by
  rw [Diagrams.free, Diagrams.free, h]

/-- What the second loop leaves of the table if all children are free and different. -/
structure Linked (s t : Diagrams) (p first : UInt32) (cs : List UInt32) : Prop where
  nodes : t.nodes = s.nodes
  other : ∀ c, c ∉ cs → t.node c = s.node c
  parent : ∀ c ∈ cs, (t.node c).parent = some p
  childHead : ∀ c, (t.node c).childHead = (s.node c).childHead
  ring : (cs ++ [first]).IsChain fun a b => (t.node a).broNext = some b

theorem linkChildren_linked (p first : UInt32) (hnodup : cs.Nodup)
    (hfree : ∀ c ∈ cs, s.free c = true) :
    ∃ t, linkChildren p first cs s = (true, t) ∧ Linked s t p first cs := by
  induction cs generalizing s with
  | nil =>
      exact ⟨s, rfl, rfl, fun _ _ => rfl, fun c hc => (by cases hc), fun _ => rfl,
        List.isChain_singleton first⟩
  | cons c cs ih =>
      obtain ⟨hc, hnodup⟩ := List.nodup_cons.mp hnodup
      rw [linkChildren, if_pos (hfree c List.mem_cons_self)]
      have hne : ∀ d ∈ cs, d ≠ c := fun d hd heq => hc (heq ▸ hd)
      obtain ⟨t, ht, hlinked⟩ := ih (s := s.link c p (cs.head?.getD first)) hnodup fun d hd => by
        rw [free_congr (node_link_of_ne (hne d hd))]
        exact hfree d (List.mem_cons_of_mem c hd)
      have hself := hlinked.other c hc
      rw [node_link_self] at hself
      refine ⟨t, ht, hlinked.nodes, fun d hd => ?_, fun d hd => ?_, fun d => ?_, ?_⟩
      · rw [List.mem_cons, not_or] at hd
        rw [hlinked.other d hd.2, node_link_of_ne hd.1]
      · rcases List.mem_cons.mp hd with rfl | hd
        · rw [hself]
        · exact hlinked.parent d hd
      · rw [hlinked.childHead]
        rcases eq_or_ne d c with rfl | hdc
        · rw [node_link_self]
        · rw [node_link_of_ne hdc]
      · rw [List.cons_append, List.isChain_cons]
        refine ⟨fun b hb => ?_, hlinked.ring⟩
        rw [hself]
        cases cs with
        | nil => exact hb
        | cons d cs => exact hb

/-! ## A new parent -/

theorem parent_of_free (h : s.free c = true) : (s.node c).parent = none := by
  rw [Diagrams.free, Bool.and_eq_true, decide_eq_true_eq] at h
  exact h.1

theorem node_adopt_self : (s.adopt p first).node p =
    { s.node p with childHead := some first, broNext := some p } :=
  Function.update_self _ _ _

theorem node_adopt_of_ne (h : c ≠ p) : (s.adopt p first).node c = s.node c :=
  Function.update_of_ne h _ _

theorem parent_adopt : ((s.adopt p first).node c).parent = (s.node c).parent := by
  rcases eq_or_ne c p with rfl | hne
  · rw [node_adopt_self]
  · rw [node_adopt_of_ne hne]

theorem above_succ : s.above (k + 1) c = (s.node c).parent.bind (s.above k) := rfl

/-- What is changed by a successful item: the children of `p` and their ring. -/
structure Adopted (s t : Diagrams) (p first : UInt32) (cs : List UInt32) : Prop where
  parent_mem : ∀ c ∈ first :: cs, (t.node c).parent = some p
  parent_other : ∀ c, c ∉ first :: cs → (t.node c).parent = (s.node c).parent
  head : (t.node p).childHead = some first
  head_other : ∀ c, c ≠ p → (t.node c).childHead = (s.node c).childHead
  ring : (first :: cs ++ [first]).IsChain fun a b => (t.node a).broNext = some b
  bro_other : ∀ c, c ∉ first :: cs → c ≠ p → (t.node c).broNext = (s.node c).broNext
  bro : (t.node p).broNext = some p

theorem Linked.adopt (h : Linked s t p first (first :: cs)) (hp : p ∉ first :: cs) :
    Adopted s (t.adopt p first) p first cs where
  parent_mem c hc := by rw [parent_adopt, h.parent c hc]
  parent_other c hc := by rw [parent_adopt, h.other c hc]
  head := by rw [node_adopt_self]
  head_other c hne := by rw [node_adopt_of_ne hne, h.childHead]
  ring := by
    refine h.ring.imp_of_mem_imp fun a b ha _ hab => ?_
    have hne : a ≠ p := by
      rintro rfl
      rcases List.mem_append.mp ha with ha | ha
      · exact hp ha
      · exact hp (List.mem_singleton.mp ha ▸ List.mem_cons_self)
    rw [node_adopt_of_ne hne]
    exact hab
  bro_other c hc hne := by rw [node_adopt_of_ne hne, h.other c hc]
  bro := by rw [node_adopt_self]

theorem above_next {a b : UInt32} (h : s.above n a = some b) :
    s.above (n + 1) a = (s.node b).parent := by
  induction n generalizing a with
  | zero =>
      obtain rfl := Option.some.inj h
      rw [above_succ]
      cases (s.node a).parent <;> rfl
  | succ n ih =>
      rw [above_succ] at h ⊢
      obtain ⟨q, hq, hb⟩ := Option.bind_eq_some_iff.mp h
      rw [hq]
      exact ih hb

/-- The way up from `p` is the one before. -/
theorem Adopted.above_parent (h : Adopted s t p first cs)
    (hbelow : ∀ k, ∀ c ∈ first :: cs, s.above k p ≠ some c) {a : UInt32}
    (ha : s.above n p = some a) (k : ℕ) : t.above k a = s.above k a := by
  induction k generalizing n a with
  | zero => rfl
  | succ k ih =>
      rw [above_succ, above_succ, h.parent_other a fun hmem => hbelow n a hmem ha]
      cases hq : (s.node a).parent with
      | none => rfl
      | some q =>
          have hnext := above_next ha
          rw [hq] at hnext
          exact ih hnext

namespace Adopted

variable (h : Adopted s t p first cs) (hforest : s.IsForest)
  (hfree : ∀ c ∈ first :: cs, s.free c = true)
include h hfree

theorem parent_eq_iff {q : UInt32} (hq : q ≠ p) :
    (t.node c).parent = some q ↔ (s.node c).parent = some q := by
  by_cases hc : c ∈ first :: cs
  · rw [h.parent_mem c hc, parent_of_free (hfree c hc)]
    exact ⟨fun heq => absurd (Option.some.inj heq).symm hq, fun heq => by cases heq⟩
  · rw [h.parent_other c hc]

include hforest

/-- The ring of another parent is the one before. -/
theorem ring_other (hbro : (s.node p).parent ≠ none → (s.node p).broNext = some p)
    {q head : UInt32} (hq : q ≠ p) (hhead : (s.node q).childHead = some head) : t.Ring q head := by
  obtain ⟨l, hnodup, hchain, hmem⟩ := hforest.ring q head hhead
  refine ⟨l, hnodup, hchain.imp_of_mem_imp fun a b ha _ hab => ?_, fun c => ?_⟩
  · have hparent : (s.node a).parent = some q := by
      rcases List.mem_append.mp ha with ha | ha
      · exact (hmem a).mp ha
      · rw [List.mem_singleton.mp ha]
        exact (hmem head).mp List.mem_cons_self
    have ha : a ∉ first :: cs := fun hmem => by
      rw [parent_of_free (hfree a hmem)] at hparent
      cases hparent
    rcases eq_or_ne a p with rfl | hne
    · -- the parent is the only child of another node
      rw [hbro (by rw [hparent]; exact Option.some_ne_none q)] at hab
      rw [h.bro]
      exact hab
    · rw [h.bro_other a ha hne]
      exact hab
  · rw [h.parent_eq_iff hfree hq]
    exact hmem c

omit hfree in
theorem ends (hbelow : ∀ k, ∀ c ∈ first :: cs, s.above k p ≠ some c) (c : UInt32) :
    ∃ k, t.above k c = none := by
  obtain ⟨m, hm⟩ := hforest.ends p
  have htop : t.above m p = none := by
    rw [h.above_parent hbelow (n := 0) rfl]
    exact hm
  obtain ⟨k, hk⟩ := hforest.ends c
  induction k generalizing c with
  | zero => cases hk
  | succ k ih =>
      by_cases hc : c ∈ first :: cs
      · refine ⟨m + 1, ?_⟩
        rw [above_succ, h.parent_mem c hc]
        exact htop
      · rw [above_succ] at hk
        cases hq : (s.node c).parent with
        | none =>
            refine ⟨1, ?_⟩
            rw [above_succ, h.parent_other c hc, hq]
            rfl
        | some q =>
            rw [hq] at hk
            obtain ⟨j, hj⟩ := ih q hk
            refine ⟨j + 1, ?_⟩
            rw [above_succ, h.parent_other c hc, hq]
            exact hj

theorem isForest (hnodup : (first :: cs).Nodup) (hnone : (s.node p).childHead = none)
    (hbro : (s.node p).parent ≠ none → (s.node p).broNext = some p)
    (hbelow : ∀ k, ∀ c ∈ first :: cs, s.above k p ≠ some c)
    (habsent : ∀ c, c ∉ t.nodes → t.node c = zeroNode) : t.IsForest where
  ring q head hhead := by
    rcases eq_or_ne q p with rfl | hq
    · obtain rfl := Option.some.inj (h.head.symm.trans hhead)
      refine ⟨cs, hnodup, h.ring, fun c => ⟨h.parent_mem c, fun hc => ?_⟩⟩
      by_contra hmem
      rw [h.parent_other c hmem] at hc
      exact hforest.noChild q hnone c hc
    · rw [h.head_other q hq] at hhead
      exact h.ring_other hforest hfree hbro hq hhead
  noChild q hnochild c hc := by
    rcases eq_or_ne q p with rfl | hq
    · rw [h.head] at hnochild
      cases hnochild
    · rw [h.head_other q hq] at hnochild
      exact hforest.noChild q hnochild c ((h.parent_eq_iff hfree hq).mp hc)
  ends := h.ends hforest hbelow
  absent := habsent

end Adopted

/-! ## A call -/

theorem above_congr (hnode : t.node = s.node) (k : ℕ) (c : UInt32) : t.above k c = s.above k c := by
  induction k generalizing c with
  | zero => rfl
  | succ k ih =>
      rw [above_succ, above_succ, hnode]
      exact congrArg _ (funext ih)

theorem IsForest.congr (h : s.IsForest) (hnode : t.node = s.node) (hsub : s.nodes ⊆ t.nodes) :
    t.IsForest where
  ring p first hhead := by
    rw [hnode] at hhead
    obtain ⟨l, hnodup, hchain, hmem⟩ := h.ring p first hhead
    exact ⟨l, hnodup, by rw [hnode]; exact hchain, by rw [hnode]; exact hmem⟩
  noChild p hnone := by
    rw [hnode] at hnone ⊢
    exact h.noChild p hnone
  ends c := by
    obtain ⟨k, hk⟩ := h.ends c
    exact ⟨k, (above_congr hnode k c).trans hk⟩
  absent c hc := by
    rw [hnode]
    exact h.absent c fun hmem => hc (hsub hmem)

/-- What a call leaves: a forest, with the links as before if the call has failed. -/
structure CallOk (s : Diagrams) (r : DrvError × Diagrams) : Prop where
  forest : r.2.IsForest
  failed : r.1 ≠ .none → r.2.node = s.node

theorem CallOk.refl (h : s.IsForest) (ret : DrvError) : CallOk s (ret, s) := ⟨h, fun _ => rfl⟩

theorem linkChildren_taken (h : s.free first = false) :
    linkChildren p first (first :: cs) s = (false, s) := by
  rw [linkChildren, h]
  rfl

/-- The second part of an item, for children that are free and different or whose first one
is taken. -/
theorem dmsEventConvergentItemAdd_ok {alloc : Alloc} (hforest : s.IsForest)
    (hsound : alloc.childNode = false ∨
      (findNodes alloc.eventNode 0 (p :: first :: cs) s).1 = false ∨ s.free first = false ∨
        ((first :: cs).Nodup ∧ (∀ c ∈ first :: cs, s.free c = true) ∧
          (s.node p).childHead = none ∧ ((s.node p).parent ≠ none → (s.node p).broNext = some p) ∧
          ∀ k, ∀ c ∈ first :: cs, s.above k p ≠ some c)) :
    CallOk s (dmsEventConvergentItemAdd alloc s (p :: first :: cs)) := by
  rw [dmsEventConvergentItemAdd]
  by_cases harray : alloc.childNode = true
  · rw [if_pos harray]
    have hfound := findNodes_spec alloc.eventNode 0 (p :: first :: cs) hforest.absent
    revert hfound hsound
    cases findNodes alloc.eventNode 0 (p :: first :: cs) s with
    | mk ok u =>
    rintro hsound ⟨hnode, hsub, hall⟩
    have hu : u.IsForest := IsForest.congr hforest hnode hsub
    have hlink : ∀ c, u.free c = s.free c := fun c => free_congr (by rw [hnode])
    cases ok with
    | false => exact ⟨hu, fun _ => hnode⟩
    | true =>
        dsimp only at hsound ⊢
        rcases hsound with h | h | hfirst | ⟨hnodup, hfree, hnone, hbro, hbelow⟩
        · rw [harray] at h
          cases h
        · cases h
        · rw [linkChildren_taken ((hlink first).trans hfirst)]
          exact ⟨hu, fun _ => hnode⟩
        · have hp : p ∉ first :: cs := fun hmem => hbelow 0 p hmem rfl
          have hfree' : ∀ c ∈ first :: cs, u.free c = true := fun c hc => by
            rw [hlink]
            exact hfree c hc
          obtain ⟨t, ht, hlinked⟩ := linkChildren_linked p first hnodup hfree'
          rw [ht]
          refine ⟨(hlinked.adopt hp).isForest hu hfree' hnodup (by rw [hnode]; exact hnone)
            (by rw [hnode]; exact hbro) 
            (fun k c hc => by rw [above_congr hnode]; exact hbelow k c hc) ?_,
            fun h => absurd rfl h⟩
          intro c hc
          have hcu : c ∉ u.nodes := fun h => hc (hlinked.nodes.symm ▸ h)
          have hne : c ≠ p := fun heq => hcu (hall rfl (heq ▸ List.mem_cons_self))
          have hmem : c ∉ first :: cs := fun h => hcu (hall rfl (List.mem_cons_of_mem p h))
          rw [node_adopt_of_ne hne, hlinked.other c hmem]
          exact hu.absent c hcu
  · rw [if_neg harray]
    exact .refl hforest _

theorem dmsEventConvergentItemInit_ok {call : ItemCall} (hforest : s.IsForest)
    (hsound : s.Sound known call) : CallOk s (dmsEventConvergentItemInit known s call) := by
  rw [dmsEventConvergentItemInit]
  by_cases hcheck : dmsEventConvergentItemCheck known call.itemConvergeId = true
  · rw [if_pos hcheck]
    have hadd : CallOk s (dmsEventConvergentItemAdd call.alloc s
        (dmsEventConvergentItemFix s call.itemConvergeId)) := by
      rcases hsound with h | hsound
      · rw [hcheck] at h
        cases h
      · revert hsound
        generalize dmsEventConvergentItemFix s call.itemConvergeId = ids
        intro hsound
        match ids with
        | [] => exact .refl hforest _
        | [_] => exact .refl hforest _
        | p :: first :: cs => exact dmsEventConvergentItemAdd_ok hforest hsound
    revert hadd
    cases dmsEventConvergentItemAdd call.alloc s
      (dmsEventConvergentItemFix s call.itemConvergeId) with
    | mk ret u =>
    intro hadd
    cases ret with
    | none => exact hadd
    | paraError => exact ⟨hadd.forest, fun _ => hadd.failed fun h => by cases h⟩
    | innerErr => exact ⟨hadd.forest, fun _ => hadd.failed fun h => by cases h⟩
    | outOfMemory => exact hadd
    | eventNotMatch => exact ⟨hadd.forest, fun _ => hadd.failed fun h => by cases h⟩
  · rw [if_neg hcheck]
    exact .refl hforest _

/-! ## The layer check -/

theorem le_climbLayers (hk : k ≤ n) : k ≤ climbLayers s n c ↔ s.above k c ≠ none := by
  induction n generalizing k c with
  | zero =>
      rw [Nat.le_zero.mp hk]
      exact ⟨fun _ h => (by cases h), fun _ => Nat.zero_le _⟩
  | succ n ih =>
      cases k with
      | zero => exact ⟨fun _ h => (by cases h), fun _ => Nat.zero_le _⟩
      | succ k =>
          rw [climbLayers, above_succ]
          cases (s.node c).parent with
          | none => exact ⟨fun h => (by cases h), fun h => absurd rfl h⟩
          | some p =>
              rw [Nat.add_le_add_iff_right, ih (Nat.le_of_succ_le_succ hk)]
              rfl

theorem IsForest.noChild_iff (h : s.IsForest) :
    (s.node p).childHead = none ↔ ∀ c, (s.node c).parent ≠ some p := by
  refine ⟨h.noChild p, fun hnone => ?_⟩
  cases hhead : (s.node p).childHead with
  | none => rfl
  | some first =>
      obtain ⟨l, -, -, hmem⟩ := h.ring p first hhead
      exact absurd ((hmem first).mp List.mem_cons_self) (hnone first)

theorem layerCheck_iff (h : s.IsForest) :
    dmsEventConvergentDiagramsLayerCheck s = true ↔ s.Shallow := by
  rw [dmsEventConvergentDiagramsLayerCheck, List.all_eq_true, Diagrams.Shallow]
  refine forall₂_congr fun c _ => ?_
  have hclimb := le_climbLayers (s := s) (c := c)
    (show EVENT_CONVERGE_DIAGRAMS_LAYER_MAX + 1 ≤ EVENT_CONVERGE_ID_NUM_MAX + 1 by decide)
  have hle : climbLayers s (EVENT_CONVERGE_ID_NUM_MAX + 1) c ≤ EVENT_CONVERGE_DIAGRAMS_LAYER_MAX ↔
      s.above (EVENT_CONVERGE_DIAGRAMS_LAYER_MAX + 1) c = none := by
    rw [← Nat.lt_succ_iff, ← Nat.not_le, Nat.succ_eq_add_one, hclimb, ne_eq, not_not]
  rw [Bool.or_eq_true, decide_eq_true_eq, decide_eq_true_eq, ← IsForest.noChild_iff h, hle]
  exact ⟨fun h hnone => h.resolve_left fun hne => hne hnone,
    fun h => Classical.or_iff_not_imp_left.mpr fun hne => h (not_not.mp hne)⟩

/-- Where every call is sound, the diagrams are a forest, and a failed call has changed
nothing. -/
theorem diagrams_ok (known : UInt32 → Bool)
    (hs : (configMachine known).ReachIf (fun s call => s.Sound known call) s) :
    DiagramsOk known s := by
  have hforest : s.IsForest := by
    refine hs.invariant (fun s hs => ?_) fun s call t hforest hsound hstep => ?_
    · obtain rfl := hs
      exact ⟨fun p first h => (by cases h), fun p _ c h => (by cases h), fun c => ⟨1, rfl⟩,
        fun c _ => rfl⟩
    · obtain rfl := Option.some.inj hstep
      exact (dmsEventConvergentItemInit_ok hforest hsound).forest
  exact ⟨hforest,
    fun call hsound hfail => (dmsEventConvergentItemInit_ok hforest hsound).failed hfail,
    layerCheck_iff hforest⟩

def noDiagrams : Diagrams := ⟨[], fun _ => zeroNode⟩

/-- An item of three ids, with enough memory. -/
def item (a b c : UInt32) : ItemCall := ⟨[a, b, c], ⟨true, fun _ => true⟩⟩

def oneItem : Diagrams := (dmsEventConvergentItemInit (fun _ => true) noDiagrams (item 1 2 3)).2

theorem item_sound : noDiagrams.Sound (fun _ => true) (item 1 2 3) := by
  have hfree (c : UInt32) : noDiagrams.free c = true := rfl
  refine .inr (.inr (.inr (.inr
    ⟨by decide, fun c _ => hfree c, rfl, fun h => absurd rfl h, ?_⟩)))
  intro k c hc h
  cases k with
  | zero =>
      obtain rfl := Option.some.inj h
      exact absurd hc (by decide)
  | succ k => cases h

theorem diagrams_ok_one : DiagramsOk (fun _ => true) oneItem :=
  diagrams_ok (fun _ => true) (.next (item 1 2 3) (.start rfl) item_sound rfl)

def twoItems : Diagrams := (dmsEventConvergentItemInit (fun _ => true) oneItem (item 4 5 6)).2

/-- The third item gives a parent to the node of the second, before it finds that its other
child belongs to the first. -/
theorem failedItem_links :
    (configMachine fun _ => true).Reach twoItems ∧
      (dmsEventConvergentItemInit (fun _ => true) twoItems (item 7 4 2)).1 = .outOfMemory ∧
      (twoItems.node 0x10000004).parent = none ∧
      ((dmsEventConvergentItemInit (fun _ => true) twoItems (item 7 4 2)).2.node
        0x10000004).parent = some 0x10000007 :=
  ⟨.next (item 4 5 6) (.next (item 1 2 3) (.start rfl) trivial rfl) trivial rfl, by decide,
    by decide, by decide⟩

end OpiaiKernel.Dms.Config
