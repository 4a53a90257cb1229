import OpiaiKernel.Xsmem.PropLinks

/-!
# Operations refine the map

An operation never follows a pointer that is not there: it keeps the links and
the counts, and what the caller and the others see is the operation on the map.
The same holds of the walks that end a node.
-/

namespace OpiaiKernel.Xsmem

def PropView.nodes (v : PropView) (rest : List PropNode) : List PropNode := v.node.toList ++ rest

def PropView.props (v : PropView) (rest : List PropNode) : Props :=
  OpiaiKernel.Xsmem.props (v.nodes rest) v.head

/-- A list with the node of the caller and the other nodes; only the global list
has none. -/
structure ViewOk (v : PropView) (rest : List PropNode) : Prop where
  linked : PropLinked (v.nodes rest) v.head
  alone : v.node = none → rest = []
  below : Below v.head v.nextProp

/-- What the ioctl has checked before an operation. -/
structure ArgOk (v : PropView) (arg : XsmPropOpArg) : Prop where
  short : arg.propLen < PROP_NAME_MAX_LEN
  owner : arg.op = XSMEM_PROP_OP_SET →
    arg.owner = XSMEM_PROP_OWNER_TASK ∨ arg.owner = XSMEM_PROP_OWNER_TASK_GRP
  node : arg.op = XSMEM_PROP_OP_SET → arg.owner = XSMEM_PROP_OWNER_TASK_GRP → v.node ≠ none

/-- What an operation of the process `pid` does to a list and to one node. -/
structure PropEffect (pid : ℕ) (v v' : PropView) (rest : List PropNode) : Prop where
  ok : ViewOk v' rest
  node : v'.node.map (fun n => (n.task, n.pool)) = v.node.map fun n => (n.task, n.pool)
  next : v.nextProp ≤ v'.nextProp
  mine : ∀ q ∈ v'.head, q.owner = XSMEM_PROP_OWNER_TASK → q ∈ v.head ∨ q.createPid = pid

theorem PropEffect.refl {pid : ℕ} {v : PropView} {rest : List PropNode} (h : ViewOk v rest) :
    PropEffect pid v v rest :=
  ⟨h, rfl, le_rfl, fun _ hq _ => .inl hq⟩

/-- The operation answers, with the effect and the result of the map. -/
def OpRefines (uid pid : ℕ) (v : PropView) (rest : List PropNode) (arg : XsmPropOpArg)
    (env : PropEnv) : Prop :=
  ∃ r v', xsmemPoolPropOp pid v arg env = some (r, v') ∧ PropEffect pid v v' rest ∧
    (r, v'.props rest) = (v.props rest).op uid pid arg env

section

variable {uid pid : ℕ} {v : PropView} {rest : List PropNode} {arg : XsmPropOpArg} {env : PropEnv}
  {key : List UInt8} {node : PropNode} {p : XsmProp}

theorem ViewOk.node_ne_none (h : ViewOk v rest) (hp : p ∈ v.head)
    (hown : p.owner = XSMEM_PROP_OWNER_TASK_GRP) : v.node ≠ none := by
  intro hnone
  have hlinked := h.linked
  rw [PropView.nodes, hnone, h.alone hnone] at hlinked
  rw [hlinked.owner_of_nil hp] at hown
  exact absurd hown (by decide)

theorem ViewOk.linked_cons (h : ViewOk v rest) (hnode : v.node = some node) :
    PropLinked (node :: rest) v.head := by
  have hlinked := h.linked
  rwa [PropView.nodes, hnode] at hlinked

theorem PropView.props_cons (rest : List PropNode) (hnode : v.node = some node) :
    v.props rest = OpiaiKernel.Xsmem.props (node :: rest) v.head := by
  rw [PropView.props, PropView.nodes, hnode]
  rfl

theorem ViewOk.find_eq (h : ViewOk v rest) (hlen : key.length = arg.propLen) :
    v.props rest (arg.propLen, cstr key) =
      (propFind v.head arg.propLen key).map (XsmProp.property (v.nodes rest)) := by
  rw [h.linked.propFind_eq hlen]
  rfl

theorem ViewOk.found (h : ViewOk v rest) (hlen : key.length = arg.propLen)
    (hfind : propFind v.head arg.propLen key = some p) :
    p ∈ v.head ∧ p.key = (arg.propLen, cstr key) := by
  rw [h.linked.propFind_eq hlen] at hfind
  exact h.linked.get_key.mp hfind

/-- A name that is not there stays new. -/
theorem ViewOk.absent (h : ViewOk v rest) (hlen : key.length = arg.propLen)
    (hfind : propFind v.head arg.propLen key = none) :
    ∀ q ∈ v.head, q.key ≠ (arg.propLen, cstr key) := by
  rw [h.linked.propFind_eq hlen] at hfind
  exact Keyed.get_eq_none.mp hfind

theorem PropLinked.mem_holders_iff (h : PropLinked (node :: rest) v.head) {a : ℕ} :
    node.task ∈ holders (node :: rest) a ↔ a ∈ node.taskPropHead := by
  rw [mem_holders_cons]
  constructor
  · rintro (⟨ha, -⟩ | hin)
    · exact ha
    · exact absurd hin (h.task_notMem a)
  · exact fun ha => .inl ⟨ha, rfl⟩

/-! ## Set -/

theorem PropLinked.props_snocTask {nodes : List PropNode} {head : List XsmProp}
    (h : PropLinked nodes (head ++ [p])) (hown : p.owner = XSMEM_PROP_OWNER_TASK) :
    props nodes (head ++ [p]) =
      (props nodes head).set p.key (some ⟨p.value, .task p.createPid⟩) := by
  funext j
  by_cases hj : j = p.key
  · rw [hj, Props.set_self, h.props_mem (by simp)]
    simp [XsmProp.property, hown, XSMEM_PROP_OWNER_TASK, XSMEM_PROP_OWNER_TASK_GRP]
  · rw [Props.set_ne _ hj]
    simp only [props, Keyed.get, List.find?_append, List.find?_cons]
    simp [Ne.symm hj]

theorem Below.snoc {head : List XsmProp} {n : ℕ} (h : Below head n) (hp : p.addr = n) :
    Below (head ++ [p]) (n + 1) := by
  intro q hq
  rcases List.mem_append.mp hq with hq | hq
  · exact (h q hq).trans (Nat.lt_succ_self _)
  · rw [List.mem_singleton.mp hq, hp]
    exact Nat.lt_succ_self _

theorem mem_snoc_mine {head : List XsmProp} {q : XsmProp} (hp : p.createPid = pid)
    (hq : q ∈ head ++ [p]) : q ∈ head ∨ q.createPid = pid :=
  (List.mem_append.mp hq).imp_right fun hq => by rw [List.mem_singleton.mp hq, hp]

theorem set_refines (h : ViewOk v rest) (harg : ArgOk v arg) (hkey : env.key = some key)
    (hlen : key.length = arg.propLen) (hset : arg.op = XSMEM_PROP_OP_SET)
    (huid : ∀ node ∈ v.node, node.task = uid) : OpRefines uid pid v rest arg env := by
  have hspec := h.find_eq hlen
  simp only [OpRefines, xsmemPoolPropOp, Props.op, hkey, hset, if_true, hspec]
  cases hfind : propFind v.head arg.propLen key with
  | some p => exact ⟨_, _, rfl, .refl h, rfl⟩
  | none =>
      have habsent := h.absent hlen hfind
      have hshort : ¬ PROP_NAME_MAX_LEN ≤ (cstr key).length := by
        have := length_cstr_le key
        have := harg.short
        omega
      have hnew : ∀ q ∈ v.head, q.addr ≠ v.nextProp := fun q hq => (h.below q hq).ne
      have hname : (cstr key).length ≤ arg.propLen ∧ cstr (cstr key) = cstr key :=
        ⟨hlen ▸ length_cstr_le key, cstr_cstr key⟩
      simp only [Option.map_none, xsmemPoolPropAlloc, if_neg hshort]
      cases hmem : env.kmallocProp with
      | false => exact ⟨_, _, rfl, .refl h, rfl⟩
      | true =>
          simp only [Bool.true_eq_false, if_false]
          by_cases hgrp : arg.owner = XSMEM_PROP_OWNER_TASK_GRP
          · obtain ⟨node, hnode⟩ := Option.ne_none_iff_exists'.mp (harg.node hset hgrp)
            have hlinked := h.linked_cons hnode
            have hfresh : v.nextProp ∉ node.taskPropHead :=
              hlinked.unlinked_of_new hnew List.mem_cons_self
            simp only [hgrp, if_true, hnode, xsmemAddPropToTask, if_neg hfresh]
            cases hmem' : env.kmallocNode with
            | false =>
                refine ⟨_, _, rfl, ⟨⟨?_, by simp, h.below.mono (Nat.le_succ _)⟩, by simp [hnode],
                  Nat.le_succ _, fun _ hq _ => .inl hq⟩, ?_⟩
                · exact hlinked
                · simp [PropView.props, PropView.nodes, hnode]
            | true =>
                obtain ⟨hl, hprops⟩ := hlinked.linkNew
                  (p := { addr := v.nextProp, name := cstr key, propLen := arg.propLen,
                          owner := XSMEM_PROP_OWNER_TASK_GRP, createPid := pid, refcnt := 1,
                          value := arg.value }) hnew habsent hname rfl rfl
                refine ⟨_, _, rfl, ⟨⟨hl, by simp, h.below.snoc rfl⟩, by simp [hnode], Nat.le_succ _,
                  fun _ hq _ => mem_snoc_mine rfl hq⟩, ?_⟩
                simp only [Bool.true_eq_false, if_false, PropView.props_cons rest hnode]
                refine Prod.ext rfl ?_
                rw [← huid node hnode]
                exact hprops
          · have howner := (harg.owner hset).resolve_right hgrp
            have hl := h.linked.snocTask
              (p := { addr := v.nextProp, name := cstr key, propLen := arg.propLen,
                      owner := arg.owner, createPid := pid, refcnt := 0,
                      value := arg.value }) hnew habsent hname howner
            simp only [if_neg hgrp]
            exact ⟨_, _, rfl, ⟨⟨hl, h.alone, h.below.snoc rfl⟩, rfl, Nat.le_succ _,
              fun _ hq _ => mem_snoc_mine rfl hq⟩, Prod.ext rfl (hl.props_snocTask howner)⟩

/-! ## Get -/

/-- Taking up what one holds already changes nothing. -/
theorem PropLinked.set_add {head : List XsmProp} (h : PropLinked (node :: rest) head)
    (hp : p ∈ head) (hown : p.owner = XSMEM_PROP_OWNER_TASK_GRP) (ha : p.addr ∈ node.taskPropHead) :
    (props (node :: rest) head).set p.key (some ((p.property (node :: rest)).add node.task)) =
      props (node :: rest) head := by
  have hin : insert node.task (holders (node :: rest) p.addr) = holders (node :: rest) p.addr :=
    Finset.insert_eq_self.mpr (mem_holders_cons.mpr (.inl ⟨ha, rfl⟩))
  rw [Props.set, Function.update_eq_self_iff, h.props_mem hp]
  simp only [XsmProp.property, Property.add, hown, if_true, hin]

theorem get_refines (h : ViewOk v rest) (hkey : env.key = some key)
    (hlen : key.length = arg.propLen) (hget : arg.op = XSMEM_PROP_OP_GET)
    (huid : ∀ node ∈ v.node, node.task = uid) : OpRefines uid pid v rest arg env := by
  have hspec := h.find_eq hlen
  have hne : XSMEM_PROP_OP_GET ≠ XSMEM_PROP_OP_SET := by decide
  simp only [OpRefines, xsmemPoolPropOp, Props.op, hkey, hget, if_neg hne, if_true, hspec]
  cases hfind : propFind v.head arg.propLen key with
  | none => exact ⟨_, _, rfl, .refl h, rfl⟩
  | some p =>
      obtain ⟨hp, hpk⟩ := h.found hlen hfind
      by_cases hgrp : p.owner = XSMEM_PROP_OWNER_TASK_GRP
      · obtain ⟨node, hnode⟩ := Option.ne_none_iff_exists'.mp (h.node_ne_none hp hgrp)
        have hl := h.linked_cons hnode
        have htask := huid node hnode
        have hprops := PropView.props_cons rest hnode
        have hholds : uid ∈ holders (v.nodes rest) p.addr ↔ p.addr ∈ node.taskPropHead := by
          rw [PropView.nodes, hnode, ← htask]
          exact hl.mem_holders_iff
        simp only [if_pos hgrp, hnode, xsmemAddPropToTask, Option.map_some, XsmProp.property,
          hholds]
        by_cases ha : p.addr ∈ node.taskPropHead
        · simp only [ha, if_true, not_true, false_and, if_false, hl.addrs.modify_self hp]
          have heq :
              ({ head := v.head, node := some node, nextProp := v.nextProp } : PropView) = v := by
            rw [← hnode]
          refine ⟨_, _, rfl, by rw [heq]; exact .refl h, Prod.ext rfl ?_⟩
          have hset := hl.set_add hp hgrp ha
          rw [heq, hprops, ← hpk, ← htask]
          refine hset.symm.trans ?_
          simp [XsmProp.property, hgrp, PropView.nodes, hnode]
        · simp only [ha, if_false, not_false_eq_true, true_and]
          cases hmem : env.kmallocNode with
          | false => exact ⟨_, _, rfl, .refl h, rfl⟩
          | true =>
              simp only [Bool.true_eq_false, if_false]
              have hr := h.linked.rewrites hp (f := fun _ => { p with refcnt := p.refcnt + 1 })
                rfl rfl
              obtain ⟨hl', hprops'⟩ := hl.linkOld hp hgrp ha hr
              refine ⟨_, _, rfl, ⟨⟨hl', by simp, ?_⟩, by simp [hnode], le_rfl, ?_⟩, Prod.ext rfl ?_⟩
              · intro q hq
                by_cases hqa : q.addr = p.addr
                · exact hqa ▸ h.below p hp
                · exact h.below q ((hr.others q hqa).mp hq)
              · intro q hq hown
                by_cases hqa : q.addr = p.addr
                · rw [hr.here q hq hqa, hgrp] at hown
                  exact absurd hown (by decide)
                · exact .inl ((hr.others q hqa).mp hq)
              · rw [hprops, ← hpk, ← htask]
                refine hprops'.trans ?_
                simp [XsmProp.property, hgrp, PropView.nodes, hnode]
      · simp only [if_neg hgrp, Option.map_some, XsmProp.property]
        exact ⟨_, _, rfl, .refl h, rfl⟩

/-! ## Delete -/

theorem PropLinked.props_free {nodes : List PropNode} {head : List XsmProp}
    (h : PropLinked nodes head) (hp : p ∈ head) :
    props nodes (xsmemPoolPropFree head p) = (props nodes head).set p.key none := by
  funext j
  by_cases hj : j = p.key
  · rw [hj, Props.set_self, props, Option.map_eq_none_iff]
    refine Keyed.get_eq_none.mpr fun q hq hkey => ?_
    obtain ⟨hin, hne⟩ := Keyed.mem_remove.mp hq
    exact hne (by rw [h.keys.eq_of_key hin hp hkey])
  · have hget : Keyed.get XsmProp.key j (xsmemPoolPropFree head p) =
        Keyed.get XsmProp.key j head := by
      refine h.keys.get_congr (h.keys.sublist (List.filter_sublist.map _)) fun q hq => ?_
      rw [xsmemPoolPropFree, Keyed.mem_remove, and_iff_left_iff_imp]
      exact fun hin haddr => hj (by rw [← hq, h.addrs.eq_of_key hin hp haddr])
    rw [Props.set_ne _ hj, props, hget]
    rfl

theorem mem_xsmemPropPut {head : List XsmProp} {q : XsmProp} (h : q ∈ xsmemPropPut head p) :
    (∃ q' ∈ head, q'.addr = q.addr ∧ q'.owner = q.owner) ∧
      (q ∈ head ∨ q.addr = p.addr) := by
  unfold xsmemPropPut at h
  split at h
  · have hin := (Keyed.mem_remove.mp h).1
    exact ⟨⟨q, hin, rfl, rfl⟩, .inl hin⟩
  · obtain ⟨q', hin, rfl⟩ := List.mem_map.mp h
    split
    · rename_i ha
      exact ⟨⟨q', hin, rfl, rfl⟩, .inr ha⟩
    · exact ⟨⟨q', hin, rfl, rfl⟩, .inl hin⟩

/-- What belongs to one task has been there, unchanged. -/
theorem PropLinked.mem_put {nodes : List PropNode} {head : List XsmProp} {q : XsmProp}
    (h : PropLinked nodes head) (hp : p ∈ head) (hgrp : p.owner = XSMEM_PROP_OWNER_TASK_GRP)
    (hq : q ∈ xsmemPropPut head p) (hown : q.owner = XSMEM_PROP_OWNER_TASK) : q ∈ head := by
  obtain ⟨⟨q', hin, haddr, howner⟩, hor⟩ := mem_xsmemPropPut hq
  refine hor.resolve_right fun ha => ?_
  rw [h.addrs.eq_of_key hin hp (haddr.trans ha), hgrp, hown] at howner
  exact absurd howner (by decide)

theorem Below.put {head : List XsmProp} {n : ℕ} (h : Below head n) :
    Below (xsmemPropPut head p) n := fun q hq => by
  obtain ⟨q', hin, haddr, -⟩ := (mem_xsmemPropPut hq).1
  exact haddr ▸ h q' hin

theorem del_refines (h : ViewOk v rest) (hkey : env.key = some key)
    (hlen : key.length = arg.propLen) (hset : arg.op ≠ XSMEM_PROP_OP_SET)
    (hget : arg.op ≠ XSMEM_PROP_OP_GET) (huid : ∀ node ∈ v.node, node.task = uid) :
    OpRefines uid pid v rest arg env := by
  have hspec := h.find_eq hlen
  simp only [OpRefines, xsmemPoolPropOp, Props.op, hkey, if_neg hset, if_neg hget, hspec]
  cases hfind : propFind v.head arg.propLen key with
  | none => exact ⟨_, _, rfl, .refl h, rfl⟩
  | some p =>
      obtain ⟨hp, hpk⟩ := h.found hlen hfind
      by_cases hgrp : p.owner = XSMEM_PROP_OWNER_TASK_GRP
      · obtain ⟨node, hnode⟩ := Option.ne_none_iff_exists'.mp (h.node_ne_none hp hgrp)
        have hl := h.linked_cons hnode
        have htask := huid node hnode
        have hprops := PropView.props_cons rest hnode
        have hholds : uid ∈ holders (v.nodes rest) p.addr ↔ p.addr ∈ node.taskPropHead := by
          rw [PropView.nodes, hnode, ← htask]
          exact hl.mem_holders_iff
        simp only [xsmemPoolPropDel, hgrp, ne_eq, not_true, if_false, hnode, Option.map_some,
          XsmProp.property, if_true, hholds]
        by_cases ha : p.addr ∈ node.taskPropHead
        · obtain ⟨hl', hprops'⟩ := hl.unlink hp hgrp ha
          simp only [ha, not_true, if_false]
          refine ⟨_, _, rfl, ⟨⟨hl', by simp, h.below.put⟩, by simp [hnode], le_rfl, ?_⟩,
            Prod.ext rfl ?_⟩
          · exact fun q hq hown => .inl (hl.mem_put hp hgrp hq hown)
          · rw [hprops, ← hpk, ← htask]
            refine hprops'.trans ?_
            rw [hl.props_mem hp]
            simp [XsmProp.property, hgrp, PropView.nodes, hnode]
        · simp only [ha, not_false_eq_true, if_true]
          exact ⟨_, _, rfl, .refl h, rfl⟩
      · simp only [xsmemPoolPropDel, ne_eq, hgrp, not_false_eq_true, if_true, Option.map_some,
          XsmProp.property, if_false]
        by_cases hmine : p.createPid = pid
        · simp only [hmine, not_true, if_false]
          refine ⟨_, _, rfl,
            ⟨⟨h.linked.filterTask fun q hq hk => ?_, h.alone, ?_⟩, rfl, le_rfl, ?_⟩,
            Prod.ext rfl ?_⟩
          · have haddr : q.addr = p.addr := by simpa using hk
            rwa [h.linked.addrs.eq_of_key hq hp haddr]
          · exact fun q hq => h.below q (Keyed.mem_remove.mp hq).1
          · exact fun q hq _ => .inl (Keyed.mem_remove.mp hq).1
          · exact hpk ▸ h.linked.props_free hp
        · simp only [hmine, not_false_eq_true, if_true]
          exact ⟨_, _, rfl, .refl h, rfl⟩

/-- Every operation answers and is the operation on the map. -/
theorem op_refines (h : ViewOk v rest) (harg : ArgOk v arg)
    (hlen : ∀ key ∈ env.key, key.length = arg.propLen)
    (huid : ∀ node ∈ v.node, node.task = uid) : OpRefines uid pid v rest arg env := by
  cases hkey : env.key with
  | none =>
      simp only [OpRefines, xsmemPoolPropOp, Props.op, hkey]
      exact ⟨_, _, rfl, .refl h, rfl⟩
  | some key =>
      by_cases hset : arg.op = XSMEM_PROP_OP_SET
      · exact set_refines h harg hkey (hlen key hkey) hset huid
      by_cases hget : arg.op = XSMEM_PROP_OP_GET
      · exact get_refines h hkey (hlen key hkey) hget huid
      · exact del_refines h hkey (hlen key hkey) hset hget huid

/-! ## The walks -/

/-- A property of the group has a holder. -/
theorem PropLinked.holders_nonempty {nodes : List PropNode} {head : List XsmProp}
    (h : PropLinked nodes head) (hp : p ∈ head) (hown : p.owner = XSMEM_PROP_OWNER_TASK_GRP) :
    (holders nodes p.addr).Nonempty := by
  have hcount := h.counted p hp hown
  have hpos : 0 < nodes.countP (fun node => p.addr ∈ node.taskPropHead) := by omega
  obtain ⟨n, hn, ha⟩ := List.countP_pos_iff.mp hpos
  exact ⟨n.task, mem_holders.mpr ⟨n, hn, by simpa using ha, rfl⟩⟩

/-- A node without links holds nothing. -/
theorem PropLinked.leave_eq {head : List XsmProp} (h : PropLinked (node :: rest) head)
    (hnone : node.taskPropHead = []) :
    (props (node :: rest) head).leave node.task = props (node :: rest) head := by
  funext k
  simp only [Props.leave, props]
  cases hget : Keyed.get XsmProp.key k head with
  | none => rfl
  | some p =>
      obtain ⟨hp, -⟩ := h.get_key.mp hget
      by_cases hgrp : p.owner = XSMEM_PROP_OWNER_TASK_GRP
      · have hnot : node.task ∉ holders (node :: rest) p.addr := by
          rw [mem_holders_cons, hnone]
          rintro (⟨hin, -⟩ | hin)
          · simp at hin
          · exact h.task_notMem p.addr hin
        have hne := (h.holders_nonempty hp hgrp).ne_empty
        simp [XsmProp.property, hgrp, Property.drop, Finset.erase_eq_of_notMem hnot, hne]
      · simp [XsmProp.property, hgrp, Property.drop]

/-- The walk over the links of a node finds every property, and the task has let
go of all of them. -/
theorem grpPropDel_refines (node : PropNode) {head : List XsmProp} {links : List ℕ}
    (h : PropLinked ({ node with taskPropHead := links } :: rest) head) :
    ∃ head', xsmemProcGrpPropDel links head = some head' ∧
      PropLinked ({ node with taskPropHead := [] } :: rest) head' ∧
      props ({ node with taskPropHead := [] } :: rest) head' =
        (props ({ node with taskPropHead := links } :: rest) head).leave node.task ∧
      (∀ q ∈ head', q.owner = XSMEM_PROP_OWNER_TASK → q ∈ head) ∧
      ∀ n, Below head n → Below head' n := by
  induction links generalizing head with
  | nil => exact ⟨head, rfl, h, (h.leave_eq rfl).symm, fun _ hq _ => hq, fun _ hn => hn⟩
  | cons a links ih =>
      obtain ⟨p, hp, rfl, hown⟩ := h.linked _ List.mem_cons_self a List.mem_cons_self
      obtain ⟨hl, hprops⟩ := h.unlink hp hown List.mem_cons_self
      simp only [List.erase_cons_head] at hl hprops
      obtain ⟨head', hwalk, hl', hprops', hmine, hbelow⟩ := ih hl
      refine ⟨head', ?_, hl', ?_, fun q hq hown' => ?_, fun n hn => hbelow n hn.put⟩
      · simp only [xsmemProcGrpPropDel, h.get_addr hp]
        exact hwalk
      · rw [hprops', hprops]
        exact Props.leave_set_drop _ _ _
      · exact h.mem_put hp hown (hmine q hq hown') hown'

theorem taskPropDel_mem {head : List XsmProp} {q : XsmProp} :
    q ∈ xsmemTaskPropDel head pid ↔
      q ∈ head ∧ ¬ (q.createPid = pid ∧ q.owner = XSMEM_PROP_OWNER_TASK) := by
  rw [xsmemTaskPropDel, List.mem_filter, decide_eq_true_iff]

/-- The walk over a list ends what belongs to one task. -/
theorem taskPropDel_refines (pid : ℕ) {nodes : List PropNode} {head : List XsmProp}
    (h : PropLinked nodes head) :
    PropLinked nodes (xsmemTaskPropDel head pid) ∧
      props nodes (xsmemTaskPropDel head pid) =
        (props nodes head).endTask pid := by
  have hlinked : PropLinked nodes (xsmemTaskPropDel head pid) := by
    refine h.filterTask fun q hq hk hgrp => ?_
    simp [hgrp, XSMEM_PROP_OWNER_TASK, XSMEM_PROP_OWNER_TASK_GRP] at hk
  refine ⟨hlinked, ?_⟩
  funext k
  have hget : Keyed.get XsmProp.key k (xsmemTaskPropDel head pid) =
      (Keyed.get XsmProp.key k head).filter
        fun q => ¬ (q.createPid = pid ∧ q.owner = XSMEM_PROP_OWNER_TASK) := by
    refine Option.ext fun q => ?_
    rw [hlinked.get_key, taskPropDel_mem, Option.filter_eq_some_iff, h.get_key, decide_eq_true_iff,
      and_right_comm]
  simp only [props, Props.endTask, hget]
  cases hgot : Keyed.get XsmProp.key k head with
  | none => rfl
  | some q =>
      obtain ⟨hq, -⟩ := h.get_key.mp hgot
      have hiff : ¬ (q.createPid = pid ∧ q.owner = XSMEM_PROP_OWNER_TASK) ↔
          (q.property nodes).owner ≠ .task pid := by
        rcases h.owned q hq with hown | hown <;>
          simp [XsmProp.property, hown, XSMEM_PROP_OWNER_TASK, XSMEM_PROP_OWNER_TASK_GRP]
      rw [Option.map_some, Option.filter_some, Option.filter_some]
      simp only [decide_eq_true_iff, hiff]
      split <;> rfl

end

end OpiaiKernel.Xsmem
