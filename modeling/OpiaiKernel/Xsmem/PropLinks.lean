import OpiaiKernel.Xsmem.PropSpec
import Mathlib.Algebra.Ring.Int.Defs
import Mathlib.Data.List.Find

/-!
# Links and counts

The invariant of a list of properties and of the nodes that may link them: a
link leads to a property of the group in the list, and the count of such a
property is the number of nodes that link it, of which there is at least one.
With no node at all every property belongs to one task.
-/

namespace OpiaiKernel.Xsmem

structure PropLinked (nodes : List PropNode) (head : List XsmProp) : Prop where
  addrs : Keyed.Uniq XsmProp.addr head
  keys : Keyed.Uniq XsmProp.key head
  named : ∀ p ∈ head, p.name.length ≤ p.propLen ∧ cstr p.name = p.name
  owned : ∀ p ∈ head, p.owner = XSMEM_PROP_OWNER_TASK ∨ p.owner = XSMEM_PROP_OWNER_TASK_GRP
  tasks : Keyed.Uniq PropNode.task nodes
  once : ∀ node ∈ nodes, node.taskPropHead.Nodup
  linked : ∀ node ∈ nodes, ∀ a ∈ node.taskPropHead,
    ∃ p ∈ head, p.addr = a ∧ p.owner = XSMEM_PROP_OWNER_TASK_GRP
  counted : ∀ p ∈ head, p.owner = XSMEM_PROP_OWNER_TASK_GRP →
    p.refcnt = nodes.countP (fun node => p.addr ∈ node.taskPropHead) ∧ 0 < p.refcnt

/-- Every address in use is below the next one. -/
def Below (head : List XsmProp) (next : ℕ) : Prop := ∀ p ∈ head, p.addr < next

theorem Below.mono {head : List XsmProp} {n m : ℕ} (h : Below head n) (hnm : n ≤ m) :
    Below head m := fun p hp => (h p hp).trans_le hnm

namespace PropLinked

variable {nodes nodes' rest : List PropNode} {head : List XsmProp} {node : PropNode} {p : XsmProp}

theorem perm (h : PropLinked nodes head) (hp : nodes.Perm nodes') : PropLinked nodes' head where
  addrs := h.addrs
  keys := h.keys
  named := h.named
  owned := h.owned
  tasks := h.tasks.perm hp
  once n hn := h.once n (hp.mem_iff.mpr hn)
  linked n hn := h.linked n (hp.mem_iff.mpr hn)
  counted q hq hown := by
    rw [← hp.countP_eq]
    exact h.counted q hq hown

theorem nil : PropLinked [] [] where
  addrs := List.nodup_nil
  keys := List.nodup_nil
  named := by simp
  owned := by simp
  tasks := List.nodup_nil
  once := by simp
  linked := by simp
  counted := by simp

/-- Where there is no node, nothing belongs to a group. -/
theorem owner_of_nil (h : PropLinked [] head) (hp : p ∈ head) :
    p.owner = XSMEM_PROP_OWNER_TASK := by
  refine (h.owned p hp).resolve_right fun hgrp => ?_
  have hcount := h.counted p hp hgrp
  simp at hcount
  omega

theorem get_addr (h : PropLinked nodes head) (hp : p ∈ head) :
    Keyed.get XsmProp.addr p.addr head = some p :=
  h.addrs.get_iff.mpr ⟨hp, rfl⟩

/-- The search finds the property of a name. -/
theorem propFind_eq (h : PropLinked nodes head) {propLen : ℕ} {key : List UInt8}
    (hkey : key.length = propLen) :
    propFind head propLen key = Keyed.get XsmProp.key (propLen, cstr key) head := by
  refine List.find?_congr fun q hq => ?_
  obtain ⟨hlen, hname⟩ := h.named q hq
  by_cases heq : propLen = q.propLen
  · have hiff := strncmpEq_iff (hkey.le.trans heq.le) hlen
    rw [hname] at hiff
    simp [XsmProp.key, heq, hiff, eq_comm]
  · simp [XsmProp.key, heq, Ne.symm heq]

theorem get_key (h : PropLinked nodes head) {k : PropKey} :
    Keyed.get XsmProp.key k head = some p ↔ p ∈ head ∧ p.key = k :=
  h.keys.get_iff

/-! ## Properties of one task come and go -/

/-- A property that belongs to one task is linked by nobody. -/
theorem unlinked (h : PropLinked nodes head) (hp : p ∈ head)
    (hown : p.owner ≠ XSMEM_PROP_OWNER_TASK_GRP) (hnode : node ∈ nodes) :
    p.addr ∉ node.taskPropHead := by
  intro ha
  obtain ⟨q, hq, haddr, hgrp⟩ := h.linked node hnode p.addr ha
  exact hown (h.addrs.eq_of_key hq hp haddr ▸ hgrp)

theorem snocTask (h : PropLinked nodes head) (hnew : ∀ q ∈ head, q.addr ≠ p.addr)
    (hkey : ∀ q ∈ head, q.key ≠ p.key) (hname : p.name.length ≤ p.propLen ∧ cstr p.name = p.name)
    (hown : p.owner = XSMEM_PROP_OWNER_TASK) : PropLinked nodes (head ++ [p]) where
  addrs := (h.addrs.cons hnew).perm (List.perm_append_singleton p head).symm
  keys := (h.keys.cons hkey).perm (List.perm_append_singleton p head).symm
  named q hq := by
    rcases List.mem_append.mp hq with hq | hq
    · exact h.named q hq
    · rwa [List.mem_singleton.mp hq]
  owned q hq := by
    rcases List.mem_append.mp hq with hq | hq
    · exact h.owned q hq
    · exact .inl (List.mem_singleton.mp hq ▸ hown)
  tasks := h.tasks
  once := h.once
  linked n hn a ha := by
    obtain ⟨q, hq, hrest⟩ := h.linked n hn a ha
    exact ⟨q, List.mem_append_left _ hq, hrest⟩
  counted q hq hgrp := by
    rcases List.mem_append.mp hq with hq | hq
    · exact h.counted q hq hgrp
    · rw [List.mem_singleton.mp hq, hown] at hgrp
      exact absurd hgrp (by decide)

/-- Properties of single tasks may be taken out. -/
theorem filterTask (h : PropLinked nodes head) {keep : XsmProp → Bool}
    (hkeep : ∀ q ∈ head, keep q = false → q.owner ≠ XSMEM_PROP_OWNER_TASK_GRP) :
    PropLinked nodes (head.filter keep) where
  addrs := h.addrs.sublist (List.filter_sublist.map _)
  keys := h.keys.sublist (List.filter_sublist.map _)
  named q hq := h.named q (List.mem_filter.mp hq).1
  owned q hq := h.owned q (List.mem_filter.mp hq).1
  tasks := h.tasks
  once := h.once
  linked n hn a ha := by
    obtain ⟨q, hq, haddr, hgrp⟩ := h.linked n hn a ha
    refine ⟨q, List.mem_filter.mpr ⟨hq, ?_⟩, haddr, hgrp⟩
    cases hk : keep q with
    | true => rfl
    | false => exact absurd hgrp (hkeep q hq hk)
  counted q hq := h.counted q (List.mem_filter.mp hq).1

/-! ## Links come and go -/

/-- One node and what lies at one address change; the address is counted anew. -/
theorem relink (h : PropLinked (node :: rest) head) {head' : List XsmProp} {links : List ℕ} {a : ℕ}
    (hagree : ∀ b, b ≠ a → (b ∈ links ↔ b ∈ node.taskPropHead)) (honce : links.Nodup)
    (hmem : ∀ q, q.addr ≠ a → (q ∈ head' ↔ q ∈ head)) (haddrs : Keyed.Uniq XsmProp.addr head')
    (hkeys : Keyed.Uniq XsmProp.key head')
    (hnamed : ∀ q ∈ head', q.addr = a → q.name.length ≤ q.propLen ∧ cstr q.name = q.name)
    (hgrp : ∀ q ∈ head', q.addr = a → q.owner = XSMEM_PROP_OWNER_TASK_GRP)
    (hlinked : (∃ n ∈ { node with taskPropHead := links } :: rest, a ∈ n.taskPropHead) →
      ∃ q ∈ head', q.addr = a)
    (hcounted : ∀ q ∈ head', q.addr = a →
      q.refcnt = (if a ∈ links then 1 else 0) + rest.countP (fun n => a ∈ n.taskPropHead) ∧
        0 < q.refcnt) :
    PropLinked ({ node with taskPropHead := links } :: rest) head' where
  addrs := haddrs
  keys := hkeys
  named q hq := by
    by_cases ha : q.addr = a
    · exact hnamed q hq ha
    · exact h.named q ((hmem q ha).mp hq)
  owned q hq := by
    by_cases ha : q.addr = a
    · exact .inr (hgrp q hq ha)
    · exact h.owned q ((hmem q ha).mp hq)
  tasks := h.tasks
  once n hn := by
    rcases List.mem_cons.mp hn with rfl | hn
    · exact honce
    · exact h.once n (List.mem_cons_of_mem _ hn)
  linked n hn b hb := by
    by_cases hba : b = a
    · obtain ⟨q, hq, hqa⟩ := hlinked ⟨n, hn, hba ▸ hb⟩
      exact ⟨q, hq, hqa.trans hba.symm, hgrp q hq hqa⟩
    · have hold : ∃ n ∈ node :: rest, b ∈ n.taskPropHead := by
        rcases List.mem_cons.mp hn with rfl | hn
        · exact ⟨node, List.mem_cons_self, (hagree b hba).mp hb⟩
        · exact ⟨n, List.mem_cons_of_mem _ hn, hb⟩
      obtain ⟨m, hm, hbm⟩ := hold
      obtain ⟨q, hq, haddr, hown⟩ := h.linked m hm b hbm
      exact ⟨q, (hmem q (haddr ▸ hba)).mpr hq, haddr, hown⟩
  counted q hq hown := by
    by_cases ha : q.addr = a
    · have hcount := hcounted q hq ha
      rw [← ha] at hcount
      rw [List.countP_cons]
      refine ⟨?_, hcount.2⟩
      rw [hcount.1]
      split <;> simp_all [add_comm]
    · have hcount := h.counted q ((hmem q ha).mp hq) hown
      rw [List.countP_cons] at hcount ⊢
      simpa only [hagree q.addr ha] using hcount

/-- The count of a property, with the share of one node. -/
theorem refcnt_eq (h : PropLinked (node :: rest) head) (hp : p ∈ head)
    (hown : p.owner = XSMEM_PROP_OWNER_TASK_GRP) :
    p.refcnt = (if p.addr ∈ node.taskPropHead then 1 else 0) +
      rest.countP (fun n => p.addr ∈ n.taskPropHead) := by
  have hcount := (h.counted p hp hown).1
  rw [List.countP_cons] at hcount
  rw [hcount]
  split <;> simp_all [add_comm]

/-! ## What the lists say -/

theorem props_mem (h : PropLinked nodes head) (hp : p ∈ head) :
    props nodes head p.key = some (p.property nodes) := by
  rw [props, h.get_key.mpr ⟨hp, rfl⟩, Option.map_some]

/-- A name that no other property has kept is the only one that can have changed. -/
theorem props_relink (h : PropLinked (node :: rest) head) {head' : List XsmProp} {links : List ℕ}
    {a : ℕ} {k : PropKey} (h' : PropLinked ({ node with taskPropHead := links } :: rest) head')
    (hagree : ∀ b, b ≠ a → (b ∈ links ↔ b ∈ node.taskPropHead))
    (hmem : ∀ q, q.addr ≠ a → (q ∈ head' ↔ q ∈ head)) (hk : ∀ q ∈ head, q.addr = a → q.key = k)
    (hk' : ∀ q ∈ head', q.addr = a → q.key = k) :
    props ({ node with taskPropHead := links } :: rest) head' =
      (props (node :: rest) head).set k
        (props ({ node with taskPropHead := links } :: rest) head' k) := by
  funext j
  by_cases hj : j = k
  · rw [hj, Props.set_self]
  rw [Props.set_ne _ hj]
  have hget : Keyed.get XsmProp.key j head' = Keyed.get XsmProp.key j head := by
    refine h.keys.get_congr h'.keys fun q hq => ?_
    by_cases ha : q.addr = a
    · exact ⟨fun hin => absurd (hq.symm.trans (hk' q hin ha)) hj,
        fun hin => absurd (hq.symm.trans (hk q hin ha)) hj⟩
    · exact hmem q ha
  simp only [props, hget]
  cases hgot : Keyed.get XsmProp.key j head with
  | none => rfl
  | some q =>
      obtain ⟨hq, hqj⟩ := h.get_key.mp hgot
      have ha : q.addr ≠ a := fun ha => hj (hqj.symm.trans (hk q hq ha))
      have hholders : holders ({ node with taskPropHead := links } :: rest) q.addr =
          holders (node :: rest) q.addr := by
        ext uid
        simp only [mem_holders_cons, hagree _ ha]
      simp only [Option.map_some, XsmProp.property, hholders]

/-! ## Take up and let go -/

/-- Nobody links an address where no property is. -/
theorem unlinked_of_new (h : PropLinked nodes head) {a : ℕ} (hnew : ∀ q ∈ head, q.addr ≠ a)
    {n : PropNode} (hn : n ∈ nodes) : a ∉ n.taskPropHead := by
  intro ha
  obtain ⟨q, hq, haddr, -⟩ := h.linked n hn a ha
  exact hnew q hq haddr

/-- The task of a node is not that of another one. -/
theorem task_notMem (h : PropLinked (node :: rest) head) (a : ℕ) : node.task ∉ holders rest a := by
  intro hin
  obtain ⟨n, hn, -, htask⟩ := mem_holders.mp hin
  exact h.tasks.ne_of_tail hn htask

theorem agree_snoc {links : List ℕ} {a b : ℕ} (hb : b ≠ a) : b ∈ links ++ [a] ↔ b ∈ links := by
  simp [hb]

theorem nodup_snoc {links : List ℕ} {a : ℕ} (h : links.Nodup) (ha : a ∉ links) :
    (links ++ [a]).Nodup := by
  rw [List.nodup_append]
  exact ⟨h, List.nodup_singleton a, fun b hb c hc hbc => ha (List.mem_singleton.mp hc ▸ hbc ▸ hb)⟩

/-- A new property of the group, which the node links. -/
theorem linkNew (h : PropLinked (node :: rest) head) (hnew : ∀ q ∈ head, q.addr ≠ p.addr)
    (hkey : ∀ q ∈ head, q.key ≠ p.key) (hname : p.name.length ≤ p.propLen ∧ cstr p.name = p.name)
    (hown : p.owner = XSMEM_PROP_OWNER_TASK_GRP) (hcnt : p.refcnt = 1) :
    PropLinked ({ node with taskPropHead := node.taskPropHead ++ [p.addr] } :: rest) (head ++ [p]) ∧
      props ({ node with taskPropHead := node.taskPropHead ++ [p.addr] } :: rest) (head ++ [p]) =
        (props (node :: rest) head).set p.key (some ⟨p.value, .group {node.task}⟩) := by
  have hnode : p.addr ∉ node.taskPropHead := h.unlinked_of_new hnew List.mem_cons_self
  have hrest : ∀ n ∈ rest, p.addr ∉ n.taskPropHead := fun n hn =>
    h.unlinked_of_new hnew (List.mem_cons_of_mem _ hn)
  have hmem : ∀ q, q.addr ≠ p.addr → (q ∈ head ++ [p] ↔ q ∈ head) := fun q hq => by
    simp only [List.mem_append, List.mem_singleton, or_iff_left_iff_imp]
    exact fun hqp => absurd (hqp ▸ rfl) hq
  have hat : ∀ q ∈ head ++ [p], q.addr = p.addr → q = p := fun q hq ha => by
    rcases List.mem_append.mp hq with hq | hq
    · exact absurd ha (hnew q hq)
    · exact List.mem_singleton.mp hq
  have hlinked : PropLinked ({ node with taskPropHead := node.taskPropHead ++ [p.addr] } :: rest)
      (head ++ [p]) := by
    refine h.relink (fun b hb => agree_snoc hb) (nodup_snoc (h.once _ List.mem_cons_self) hnode)
      hmem ((h.addrs.cons hnew).perm (List.perm_append_singleton p head).symm)
      ((h.keys.cons hkey).perm (List.perm_append_singleton p head).symm) ?_ ?_ ?_ ?_
    · exact fun q hq ha => hat q hq ha ▸ hname
    · exact fun q hq ha => hat q hq ha ▸ hown
    · exact fun _ => ⟨p, List.mem_append_right _ (List.mem_singleton.mpr rfl), rfl⟩
    · intro q hq ha
      rw [hat q hq ha, hcnt, List.countP_eq_zero.mpr fun n hn => by simpa using hrest n hn]
      simp
  refine ⟨hlinked, ?_⟩
  rw [h.props_relink hlinked (fun b hb => agree_snoc hb) hmem
    (fun q hq ha => absurd ha (hnew q hq)) (fun q hq ha => by rw [hat q hq ha])]
  rw [hlinked.props_mem (List.mem_append_right _ (List.mem_singleton.mpr rfl))]
  have hholders : holders ({ node with taskPropHead := node.taskPropHead ++ [p.addr] } :: rest)
      p.addr = {node.task} := by
    ext uid
    simp only [mem_holders, List.mem_cons, Finset.mem_singleton]
    constructor
    · rintro ⟨n, rfl | hn, ha, htask⟩
      · exact htask.symm
      · exact absurd ha (hrest n hn)
    · rintro rfl
      exact ⟨_, .inl rfl, by simp, rfl⟩
  simp only [XsmProp.property, hown, if_true, hholders]

/-- The list after a property is written in place. -/
structure Rewrites (head : List XsmProp) (p p' : XsmProp) (head' : List XsmProp) : Prop where
  addrs : Keyed.Uniq XsmProp.addr head'
  keys : Keyed.Uniq XsmProp.key head'
  others : ∀ q, q.addr ≠ p.addr → (q ∈ head' ↔ q ∈ head)
  mem : p' ∈ head'
  here : ∀ q ∈ head', q.addr = p.addr → q = p'

theorem rewrites (h : PropLinked nodes head) (hp : p ∈ head) {f : XsmProp → XsmProp}
    (haddr : (f p).addr = p.addr) (hkey : (f p).key = p.key) :
    Rewrites head p (f p) (Keyed.modify XsmProp.addr p.addr f head) := by
  have hfocus := h.addrs.focus hp
  have hfocus' := hfocus.modify (f := f) haddr
  refine ⟨?_, ?_, fun q hq => ?_, hfocus'.mem, fun q hq ha => ?_⟩
  · refine Keyed.Uniq.perm ?_ hfocus'.perm.symm
    have huniq := h.addrs.perm hfocus.perm
    rwa [Keyed.Uniq, List.map_cons, haddr]
  · refine Keyed.Uniq.perm ?_ hfocus'.perm.symm
    have huniq := h.keys.perm hfocus.perm
    rwa [Keyed.Uniq, List.map_cons, hkey]
  · rw [hfocus'.mem_iff, hfocus.mem_iff]
    constructor
    · rintro (rfl | hin)
      · exact absurd haddr hq
      · exact .inr hin
    · rintro (rfl | hin)
      · exact absurd rfl hq
      · exact .inr hin
  · rcases hfocus'.mem_iff.mp hq with rfl | hin
    · rfl
    · exact absurd (ha.trans haddr.symm) (hfocus'.apart q hin)

/-- A property of the group that is there, taken up by one more node. -/
theorem linkOld (h : PropLinked (node :: rest) head) (hp : p ∈ head)
    (hown : p.owner = XSMEM_PROP_OWNER_TASK_GRP) (hnode : p.addr ∉ node.taskPropHead)
    {head' : List XsmProp} (hr : Rewrites head p { p with refcnt := p.refcnt + 1 } head') :
    PropLinked ({ node with taskPropHead := node.taskPropHead ++ [p.addr] } :: rest) head' ∧
      props ({ node with taskPropHead := node.taskPropHead ++ [p.addr] } :: rest) head' =
        (props (node :: rest) head).set p.key
          (some ((p.property (node :: rest)).add node.task)) := by
  have hcnt := h.refcnt_eq hp hown
  rw [if_neg hnode, zero_add] at hcnt
  have hlinked : PropLinked ({ node with taskPropHead := node.taskPropHead ++ [p.addr] } :: rest)
      head' := by
    refine h.relink (fun b hb => agree_snoc hb) (nodup_snoc (h.once _ List.mem_cons_self) hnode)
      hr.others hr.addrs hr.keys ?_ ?_ ?_ ?_
    · exact fun q hq ha => hr.here q hq ha ▸ h.named p hp
    · exact fun q hq ha => hr.here q hq ha ▸ hown
    · exact fun _ => ⟨_, hr.mem, rfl⟩
    · intro q hq ha
      rw [hr.here q hq ha]
      have hpos := (h.counted p hp hown).2
      simp only [List.mem_append, List.mem_singleton, or_true, if_true]
      omega
  refine ⟨hlinked, ?_⟩
  rw [h.props_relink hlinked (fun b hb => agree_snoc hb) hr.others
    (fun q hq ha => by rw [h.addrs.eq_of_key hq hp ha])
    (fun q hq ha => by rw [hr.here q hq ha]; rfl)]
  congr 1
  refine (hlinked.props_mem hr.mem).trans (congrArg some ?_)
  have hholders : holders ({ node with taskPropHead := node.taskPropHead ++ [p.addr] } :: rest)
      p.addr = insert node.task (holders (node :: rest) p.addr) := by
    ext uid
    simp only [mem_holders_cons, Finset.mem_insert, List.mem_append, List.mem_singleton, or_true,
      true_and, hnode, false_and, false_or, eq_comm]
  simp only [XsmProp.property, Property.add, hown, if_true, hholders]

/-- Nobody but the node links a property whose count is one. -/
theorem last_iff (h : PropLinked (node :: rest) head) (hp : p ∈ head)
    (hown : p.owner = XSMEM_PROP_OWNER_TASK_GRP) (hnode : p.addr ∈ node.taskPropHead) :
    p.refcnt - 1 ≤ 0 ↔ ∀ n ∈ rest, p.addr ∉ n.taskPropHead := by
  have hcnt := h.refcnt_eq hp hown
  rw [if_pos hnode] at hcnt
  have hzero : p.refcnt - 1 ≤ 0 ↔ rest.countP (fun n => p.addr ∈ n.taskPropHead) = 0 := by omega
  rw [hzero, List.countP_eq_zero]
  simp

/-- A node lets a property go, and the last one frees it. -/
theorem unlink (h : PropLinked (node :: rest) head) (hp : p ∈ head)
    (hown : p.owner = XSMEM_PROP_OWNER_TASK_GRP) (hnode : p.addr ∈ node.taskPropHead) :
    PropLinked ({ node with taskPropHead := node.taskPropHead.erase p.addr } :: rest)
        (xsmemPropPut head p) ∧
      props ({ node with taskPropHead := node.taskPropHead.erase p.addr } :: rest)
          (xsmemPropPut head p) =
        (props (node :: rest) head).set p.key
          ((props (node :: rest) head p.key).bind (Property.drop node.task)) := by
  have honce := h.once _ List.mem_cons_self
  have hagree : ∀ b, b ≠ p.addr → (b ∈ node.taskPropHead.erase p.addr ↔ b ∈ node.taskPropHead) :=
    fun b hb => List.mem_erase_of_ne hb
  have hgone : p.addr ∉ node.taskPropHead.erase p.addr := honce.not_mem_erase
  have hholders : (holders (node :: rest) p.addr).erase node.task = holders rest p.addr := by
    ext uid
    rw [Finset.mem_erase, mem_holders_cons]
    constructor
    · rintro ⟨hne, ⟨-, heq⟩ | hin⟩
      · exact absurd heq.symm hne
      · exact hin
    · exact fun hin => ⟨fun heq => h.task_notMem p.addr (heq ▸ hin), .inr hin⟩
  have hhere : ∀ q ∈ head, q.addr = p.addr → q.key = p.key := fun q hq ha => by
    rw [h.addrs.eq_of_key hq hp ha]
  rw [h.props_mem hp, Option.bind_some]
  by_cases hlast : p.refcnt - 1 ≤ 0
  · have hrest := (h.last_iff hp hown hnode).mp hlast
    simp only [xsmemPropPut, if_pos hlast, xsmemPoolPropFree]
    have hmem : ∀ q, q.addr ≠ p.addr → (q ∈ Keyed.remove XsmProp.addr p.addr head ↔ q ∈ head) :=
      fun q hq => by simp [hq]
    have hnone : ∀ q ∈ Keyed.remove XsmProp.addr p.addr head, q.addr ≠ p.addr := fun q hq =>
      (Keyed.mem_remove.mp hq).2
    have hlinked : PropLinked ({ node with taskPropHead := node.taskPropHead.erase p.addr } :: rest)
        (Keyed.remove XsmProp.addr p.addr head) := by
      refine h.relink hagree (honce.erase _) hmem h.addrs.unlink
        (h.keys.sublist (List.filter_sublist.map _)) ?_ ?_ ?_ ?_
      · exact fun q hq ha => absurd ha (hnone q hq)
      · exact fun q hq ha => absurd ha (hnone q hq)
      · rintro ⟨n, hn, ha⟩
        rcases List.mem_cons.mp hn with rfl | hn
        · exact absurd ha hgone
        · exact absurd ha (hrest n hn)
      · exact fun q hq ha => absurd ha (hnone q hq)
    refine ⟨hlinked, ?_⟩
    rw [h.props_relink hlinked hagree hmem hhere fun q hq ha => absurd ha (hnone q hq)]
    have hempty : holders rest p.addr = ∅ := by
      refine Finset.eq_empty_of_forall_notMem fun uid hin => ?_
      obtain ⟨n, hn, ha, -⟩ := mem_holders.mp hin
      exact hrest n hn ha
    have hget : Keyed.get XsmProp.key p.key (Keyed.remove XsmProp.addr p.addr head) = none := by
      refine Keyed.get_eq_none.mpr fun q hq hkey => hnone q hq ?_
      rw [h.keys.eq_of_key (Keyed.mem_remove.mp hq).1 hp hkey]
    simp only [props, hget, Option.map_none, XsmProp.property, Property.drop, hown, if_true,
      hholders, hempty]
  · have hrest := mt (h.last_iff hp hown hnode).mpr hlast
    simp only [xsmemPropPut, if_neg hlast]
    have hr := h.rewrites hp (f := fun q => { q with refcnt := q.refcnt - 1 }) rfl rfl
    have hlinked : PropLinked ({ node with taskPropHead := node.taskPropHead.erase p.addr } :: rest)
        (Keyed.modify XsmProp.addr p.addr (fun q => { q with refcnt := q.refcnt - 1 }) head) := by
      refine h.relink hagree (honce.erase _) hr.others hr.addrs hr.keys ?_ ?_ ?_ ?_
      · exact fun q hq ha => hr.here q hq ha ▸ h.named p hp
      · exact fun q hq ha => hr.here q hq ha ▸ hown
      · exact fun _ => ⟨_, hr.mem, rfl⟩
      · intro q hq ha
        rw [hr.here q hq ha, if_neg hgone]
        have hcnt := h.refcnt_eq hp hown
        rw [if_pos hnode] at hcnt
        dsimp only
        omega
    refine ⟨hlinked, ?_⟩
    rw [h.props_relink hlinked hagree hr.others hhere
      (fun q hq ha => by rw [hr.here q hq ha]; rfl)]
    congr 1
    refine (hlinked.props_mem hr.mem).trans ?_
    have hgone' : holders ({ node with taskPropHead := node.taskPropHead.erase p.addr } :: rest)
        p.addr = holders rest p.addr := by
      ext uid
      rw [mem_holders_cons]
      exact or_iff_right fun hin => hgone hin.1
    have hsome : holders rest p.addr ≠ ∅ := by
      push Not at hrest
      obtain ⟨n, hn, ha⟩ := hrest
      exact Finset.ne_empty_of_mem (mem_holders.mpr ⟨n, hn, ha, rfl⟩)
    simp only [XsmProp.property, Property.drop, hown, if_true, hholders, hgone', if_neg hsome]

end PropLinked

end OpiaiKernel.Xsmem
