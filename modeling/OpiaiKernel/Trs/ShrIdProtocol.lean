import OpiaiKernel.Trs.ShrIdNode
import Mathlib.Algebra.Group.Action.Defs
import Mathlib.Algebra.Order.BigOperators.Group.Finset
import Mathlib.Tactic.SplitIfs

/-!
# The references of shared ids

A node's reference count is the reference of its creator, the opens, and what
the call in progress has in its hand.  A node in the table is referred to, and
one that was released had no creator and no open left.
-/

namespace OpiaiKernel.Trs

open Finset

variable {s t : ShrIdState} {node node' : ShrIdNode} {k : ℤ × ShrIdName} {hand : ℕ}
  {name : ShrIdName} {type pid caller : ℤ} {startTime now : ℕ} {i : Fin shrIdPidMaxNum}

namespace ShrIdNode

def creatorRef (node : ShrIdNode) : ℕ := if node.pid = 0 then 0 else 1

def openSum (node : ShrIdNode) : ℕ := ∑ i, (node.wlist i).openNum

/-- A node between calls, or in one that holds `hand` references to it. -/
structure Ok (hand : ℕ) (node : ShrIdNode) : Prop where
  ref : node.ref = node.creatorRef + node.openSum + hand
  pos : 0 < node.ref
  grants : ∀ i, (node.wlist i).pid ≠ 0 → (node.creator, (node.wlist i).pid) ∈ node.grants
  creator : node.pid = 0 ∨ node.pid = node.creator
  bound : ∀ i, (node.wlist i).openNum ≤ trsShrIdNodeMaxOpenNum

/-- The node is still the one that was created. -/
structure Same (node node' : ShrIdNode) : Prop where
  key : node'.key = node.key
  taken : node'.taken = node.taken
  remote : node'.remote = node.remote

theorem Same.refl (node : ShrIdNode) : Same node node := ⟨rfl, rfl, rfl⟩

theorem Same.trans {node'' : ShrIdNode} (h : Same node node') (h' : Same node' node'') :
    Same node node'' :=
  ⟨h'.key.trans h.key, h'.taken.trans h.taken, h'.remote.trans h.remote⟩

theorem findWlistIndex_pid (h : node.findWlistIndex pid = some i) : (node.wlist i).pid = pid := by
  simpa using List.find?_some h

@[simp] theorem setWlist_wlist (i : Fin shrIdPidMaxNum) (w : ShrIdNodeWlist) :
    (node.setWlist i w).wlist = Function.update node.wlist i w := rfl

theorem forall_setWlist {P : ShrIdNodeWlist → Prop} {w : ShrIdNodeWlist}
    (h : ∀ j, P (node.wlist j)) (hw : P w) (j : Fin shrIdPidMaxNum) :
    P ((node.setWlist i w).wlist j) := by
  rw [setWlist_wlist]
  rcases eq_or_ne j i with rfl | hne
  · rwa [Function.update_self]
  · rw [Function.update_of_ne hne]
    exact h j

theorem openSum_setWlist (i : Fin shrIdPidMaxNum) (w : ShrIdNodeWlist) :
    (node.setWlist i w).openSum + (node.wlist i).openNum = node.openSum + w.openNum := by
  have hother : ∑ j ∈ univ.erase i, ((node.setWlist i w).wlist j).openNum =
      ∑ j ∈ univ.erase i, (node.wlist j).openNum := by
    refine sum_congr rfl fun j hj => ?_
    rw [setWlist_wlist, Function.update_of_ne (ne_of_mem_erase hj)]
  have hself : ((node.setWlist i w).wlist i).openNum = w.openNum := by
    rw [setWlist_wlist, Function.update_self]
  rw [openSum, openSum, ← add_sum_erase _ _ (mem_univ i), hother, hself,
    ← add_sum_erase univ (fun j => (node.wlist j).openNum) (mem_univ i)]
  omega

theorem openNum_le_openSum (i : Fin shrIdPidMaxNum) : (node.wlist i).openNum ≤ node.openSum :=
  single_le_sum (f := fun i => (node.wlist i).openNum) (fun _ _ => Nat.zero_le _) (mem_univ i)

/-- The reference count does not saturate. -/
theorem Ok.ref_lt (h : Ok hand node) : node.ref ≤ 2 ^ 31 - 16 + hand := by
  have hsum : node.openSum ≤ shrIdPidMaxNum * trsShrIdNodeMaxOpenNum := by
    have hle := sum_le_card_nsmul univ (fun i => (node.wlist i).openNum) _ fun i _ => h.bound i
    rwa [card_univ, Fintype.card_fin, smul_eq_mul] at hle
  have hmax : shrIdPidMaxNum * trsShrIdNodeMaxOpenNum ≤ 2 ^ 31 - 17 := by decide
  have hcreator : node.creatorRef ≤ 1 := by unfold creatorRef; split_ifs <;> omega
  have href := h.ref
  omega

theorem Ok.init {serial : ℕ} {attr : ShrIdNodeOpAttr} {remote : Bool} (hpid : pid ≠ 0) :
    Ok 0 (init serial name pid now attr remote) where
  ref := by
    have hzero : openSum (ShrIdNode.init serial name pid now attr remote) = 0 := by
      refine sum_eq_zero fun i _ => ?_
      simp only [ShrIdNode.init]
      split_ifs <;> rfl
    rw [hzero, creatorRef]
    simp [ShrIdNode.init, hpid]
  pos := by simp [ShrIdNode.init]
  grants i := by
    simp only [ShrIdNode.init]
    split_ifs <;> simp
  creator := .inr rfl
  bound i := by
    simp only [ShrIdNode.init]
    split_ifs <;> exact Nat.zero_le _

theorem Ok.get (h : Ok hand node) : Ok (hand + 1) { node with ref := node.ref + 1 } where
  ref := by
    change node.ref + 1 = node.creatorRef + node.openSum + (hand + 1)
    rw [h.ref]
    omega
  pos := Nat.succ_pos _
  grants := h.grants
  creator := h.creator
  bound := h.bound

theorem Ok.put (h : Ok (hand + 1) node) (hpos : node.ref - 1 ≠ 0) :
    Ok hand { node with ref := node.ref - 1 } where
  ref := by
    have href := h.ref
    change node.ref - 1 = node.creatorRef + node.openSum + hand
    omega
  pos := Nat.pos_of_ne_zero hpos
  grants := h.grants
  creator := h.creator
  bound := h.bound

/-- The last reference is dropped only when the creator and the opens are gone. -/
theorem Ok.last (h : Ok (hand + 1) node) (hzero : node.ref - 1 = 0) :
    node.pid = 0 ∧ ∀ i, (node.wlist i).openNum = 0 := by
  have href := h.ref
  have hsum : node.openSum = 0 := by omega
  have hcreator : node.creatorRef = 0 := by omega
  refine ⟨?_, fun i => ?_⟩
  · unfold creatorRef at hcreator
    split_ifs at hcreator with hpid
    exact hpid
  · have := node.openNum_le_openSum i
    omega

theorem Ok.uninit (h : Ok hand node) (hpid : 0 < pid) (hok : node.uninit pid = .ok node') :
    Ok (hand + 1) node' ∧ Same node node' := by
  unfold ShrIdNode.uninit at hok
  split at hok
  · cases hok
  · next heq =>
      cases hok
      have hne : node.pid ≠ 0 := by
        intro hzero
        exact heq fun hp => by omega
      refine ⟨⟨?_, h.pos, h.grants, .inl rfl, h.bound⟩, ⟨rfl, rfl, rfl⟩⟩
      have href := h.ref
      rw [creatorRef, if_neg hne] at href
      change node.ref = 0 + node.openSum + (hand + 1)
      omega

/-- A slot changes, and the hand makes up for its opens. -/
theorem Ok.setWlist {hand' : ℕ} (h : Ok hand node) (w : ShrIdNodeWlist)
    (hgrant : w.pid ≠ 0 → (node.creator, w.pid) ∈ node.grants)
    (hbound : w.openNum ≤ trsShrIdNodeMaxOpenNum)
    (hhand : hand' + w.openNum = hand + (node.wlist i).openNum) :
    Ok hand' (node.setWlist i w) where
  ref := by
    have href := h.ref
    have hsum := node.openSum_setWlist i w
    change node.ref = node.creatorRef + (node.setWlist i w).openSum + hand'
    omega
  pos := h.pos
  grants := forall_setWlist (P := fun w => w.pid ≠ 0 → (node.creator, w.pid) ∈ node.grants)
    h.grants hgrant
  creator := h.creator
  bound := forall_setWlist (P := fun w => w.openNum ≤ trsShrIdNodeMaxOpenNum) h.bound hbound

theorem openBy_cases (hok : node.openBy pid startTime = .ok node') :
    ∃ i, (node.wlist i).pid = pid ∧ timeAfter startTime (node.wlist i).setTime = false ∧
      (node.wlist i).openNum < trsShrIdNodeMaxOpenNum ∧
      node' = node.setWlist i { node.wlist i with openNum := (node.wlist i).openNum + 1 } := by
  unfold openBy at hok
  split at hok
  · cases hok
  · next i hi =>
      split_ifs at hok with htime hmax
      exact ⟨i, findWlistIndex_pid hi, by simpa using htime, by omega, (Except.ok.inj hok).symm⟩

theorem closeBy_cases (hok : node.closeBy pid = .ok node') :
    ∃ i, (node.wlist i).pid = pid ∧ 0 < (node.wlist i).openNum ∧
      node' = node.setWlist i { node.wlist i with openNum := (node.wlist i).openNum - 1 } := by
  unfold closeBy at hok
  split at hok
  · cases hok
  · next i hi =>
      split_ifs at hok with hzero
      exact ⟨i, findWlistIndex_pid hi, Nat.pos_of_ne_zero hzero, (Except.ok.inj hok).symm⟩

/-- The reference that the call took stays with the open. -/
theorem Ok.openBy (h : Ok (hand + 1) node) (hok : node.openBy pid startTime = .ok node') :
    Ok hand node' ∧ Same node node' := by
  obtain ⟨i, -, -, hlt, rfl⟩ := openBy_cases hok
  refine ⟨h.setWlist _ (h.grants i) hlt ?_, rfl, rfl, rfl⟩
  dsimp only
  omega

theorem Ok.closeBy (h : Ok hand node) (hok : node.closeBy pid = .ok node') :
    Ok (hand + 1) node' ∧ Same node node' := by
  obtain ⟨i, -, hpos, rfl⟩ := closeBy_cases hok
  have hbound := h.bound i
  refine ⟨h.setWlist _ (h.grants i) ?_ ?_, rfl, rfl, rfl⟩ <;> dsimp only <;> omega

theorem Ok.setPid (h : Ok hand node) (hcaller : node.creator = caller)
    (hok : node.setPid caller pid now = some node') :
    Ok hand node' ∧ Same node node' ∧ node'.creator = caller := by
  unfold ShrIdNode.setPid at hok
  split at hok
  · cases hok
  · next i hi =>
      obtain rfl := Option.some.inj hok
      have hgrant : Ok hand { node with grants := (caller, pid) :: node.grants } :=
        ⟨h.ref, h.pos, fun j hj => List.mem_cons_of_mem _ (h.grants j hj), h.creator, h.bound⟩
      refine ⟨?_, ⟨rfl, rfl, rfl⟩, hcaller⟩
      exact hgrant.setWlist { node.wlist i with pid := pid, setTime := now }
        (fun _ => List.mem_cons.mpr (.inl (by rw [← hcaller]))) (h.bound i) rfl

theorem Ok.setPidList {pids : List (ℤ × ℕ)} (h : Ok hand node)
    (hcaller : node.creator = caller) :
    Ok hand (node.setPidList caller pids).1 ∧ Same node (node.setPidList caller pids).1 := by
  induction pids generalizing node with
  | nil => exact ⟨h, .refl _⟩
  | cons p pids ih =>
      simp only [ShrIdNode.setPidList]
      split_ifs
      · exact ih h hcaller
      · split
        · exact ⟨h, .refl _⟩
        · next node' hset =>
            obtain ⟨h', hsame, hcaller'⟩ := h.setPid hcaller hset
            obtain ⟨hrest, hsame'⟩ := ih h' hcaller'
            exact ⟨hrest, hsame.trans hsame'⟩

/-- Only the creator changes the list. -/
theorem Ok.setPids (h : Ok hand node) (hpid : 0 < pid) (pids : List (ℤ × ℕ)) :
    Ok hand (node.setPids pid pids).1 ∧ Same node (node.setPids pid pids).1 := by
  unfold ShrIdNode.setPids
  split_ifs with hne
  · exact ⟨h, .refl _⟩
  · have heq : node.pid = pid := not_not.mp hne
    refine h.setPidList ?_
    rcases h.creator with hzero | hcreator
    · omega
    · rw [← hcreator, heq]

end ShrIdNode

open ShrIdNode

/-- The ids that nodes took, each but a remote one. -/
def takenBy (nodes : List ShrIdNode) : List ShrIdTaken :=
  (nodes.filter fun node => !node.remote).map taken

theorem takenBy_cons (node : ShrIdNode) (l : List ShrIdNode) :
    takenBy (node :: l) = if node.remote then takenBy l else node.taken :: takenBy l := by
  cases h : node.remote <;> simp [takenBy, h]

theorem takenBy_perm {l l' : List ShrIdNode} (h : l.Perm l') : (takenBy l).Perm (takenBy l') :=
  (h.filter _).map _

theorem takenBy_same (h : Same node node') (l : List ShrIdNode) :
    takenBy (node' :: l) = takenBy (node :: l) := by
  rw [takenBy_cons, takenBy_cons, h.remote, h.taken]

/-- The call in progress holds `hand` references to the node with the key `k`. -/
structure ShrIdInv (k : ℤ × ShrIdName) (hand : ℕ) (s : ShrIdState) : Prop where
  uniq : Keyed.Uniq key s.nodes
  ok : ∀ node ∈ s.nodes, node.Ok (if node.key = k then hand else 0)
  freed : ∀ node ∈ s.freed, node.pid = 0 ∧ ∀ i, (node.wlist i).openNum = 0
  gets : s.gets.Perm (takenBy s.nodes ++ s.puts)
  puts : s.puts.Perm (takenBy (s.freed ++ s.refused))
  nodup : (s.gets.map ShrIdTaken.serial).Nodup
  serial : ∀ r ∈ s.gets, r.serial < s.next

namespace ShrIdInv

theorem init : ShrIdInv k 0 shrIdInit := by
  constructor <;> simp [shrIdInit, Keyed.Uniq, takenBy]

/-- Between calls no key is singled out. -/
theorem rekey (h : ShrIdInv k 0 s) (k' : ℤ × ShrIdName) : ShrIdInv k' 0 s :=
  { h with ok := fun node hnode => by simpa using h.ok node hnode }

theorem okOf (h : ShrIdInv k hand s) (hnode : node ∈ s.nodes) (hkey : node.key = k) :
    node.Ok hand := by
  simpa [hkey] using h.ok node hnode

theorem setNode_focus (h : ShrIdInv k hand s) (hnode : node ∈ s.nodes)
    (hsame : Same node node') :
    Keyed.Focus key (s.setNode node').nodes node' (Keyed.remove key node.key s.nodes) := by
  rw [ShrIdState.setNode, hsame.key]
  exact (h.uniq.focus hnode).modify (f := fun _ => node') hsame.key

theorem set (h : ShrIdInv k hand s) (hnode : node ∈ s.nodes) (hkey : node.key = k)
    {hand' : ℕ} (hok : node'.Ok hand') (hsame : Same node node') :
    ShrIdInv k hand' (s.setNode node') ∧ node' ∈ (s.setNode node').nodes := by
  have hold := h.uniq.focus hnode
  have hnew := h.setNode_focus hnode hsame
  refine ⟨⟨?_, fun m hm => ?_, h.freed, ?_, h.puts, h.nodup, h.serial⟩, hnew.mem⟩
  · refine Keyed.Uniq.perm ?_ hnew.perm.symm
    have huniq := h.uniq.perm hold.perm
    rw [Keyed.Uniq, List.map_cons] at huniq ⊢
    rwa [hsame.key]
  · rcases hnew.mem_iff.mp hm with rfl | hm
    · rw [if_pos (hsame.key.trans hkey)]
      exact hok
    · obtain ⟨hin, hne⟩ := Keyed.mem_remove.mp hm
      have hok := h.ok m hin
      rw [if_neg (hkey ▸ hne)] at hok ⊢
      exact hok
  · refine h.gets.trans (List.Perm.append_right _ ?_)
    refine (takenBy_perm hold.perm).trans (.trans ?_ (takenBy_perm hnew.perm).symm)
    rw [takenBy_same hsame]

theorem get (h : ShrIdInv k 0 s) (hget : shrIdNodeGet s name type = some (t, node)) :
    ShrIdInv (type, name) 1 t ∧ node ∈ t.nodes ∧ node.key = (type, name) ∧
      ∃ m ∈ s.nodes, node = { m with ref := m.ref + 1 } := by
  unfold shrIdNodeGet at hget
  split_ifs at hget
  split at hget
  · cases hget
  · next m hm =>
      split_ifs at hget
      cases hget
      have hmem := Keyed.mem_of_get hm
      have hkey := Keyed.key_of_get hm
      have hrekey := h.rekey (type, name)
      obtain ⟨hinv, hin⟩ := hrekey.set hmem hkey (hrekey.okOf hmem hkey).get ⟨rfl, rfl, rfl⟩
      exact ⟨hinv, hin, hkey, m, hmem, rfl⟩

theorem release (h : ShrIdInv k hand s) (hnode : node ∈ s.nodes) (hkey : node.key = k)
    (hsame : Same node node') (hpid : node'.pid = 0) (hopen : ∀ i, (node'.wlist i).openNum = 0)
    {hand' : ℕ} : ShrIdInv k hand' (shrIdNodeRelease s node') := by
  have hold := h.uniq.focus hnode
  have hrest : Keyed.remove key node'.key s.nodes = Keyed.remove key node.key s.nodes := by
    rw [hsame.key]
  have htaken : s.gets.Perm (takenBy (node' :: Keyed.remove key node.key s.nodes) ++ s.puts) := by
    rw [takenBy_same hsame]
    exact h.gets.trans ((takenBy_perm hold.perm).append_right _)
  have huniq : Keyed.Uniq key (Keyed.remove key node.key s.nodes) := h.uniq.unlink
  have hok : ∀ m ∈ Keyed.remove key node.key s.nodes, m.Ok (if m.key = k then hand' else 0) := by
    intro m hm
    obtain ⟨hin, hne⟩ := Keyed.mem_remove.mp hm
    have hok := h.ok m hin
    rw [if_neg (hkey ▸ hne)] at hok ⊢
    exact hok
  have hfreed : ∀ m ∈ node' :: s.freed, m.pid = 0 ∧ ∀ i, (m.wlist i).openNum = 0 := by
    intro m hm
    rcases List.mem_cons.mp hm with rfl | hm
    · exact ⟨hpid, hopen⟩
    · exact h.freed m hm
  rw [takenBy_cons] at htaken
  unfold shrIdNodeRelease ShrIdState.putId
  rw [hrest]
  dsimp only
  split_ifs at htaken ⊢ with hremote
  · refine ⟨huniq, hok, hfreed, htaken, ?_, h.nodup, h.serial⟩
    rw [List.cons_append, takenBy_cons, if_pos hremote]
    exact h.puts
  · refine ⟨huniq, hok, hfreed, htaken.trans List.perm_middle.symm, ?_, h.nodup, h.serial⟩
    rw [List.cons_append, takenBy_cons, if_neg hremote]
    exact h.puts.cons _

theorem put (h : ShrIdInv k (hand + 1) s) : ShrIdInv k hand (shrIdNodePut s k) := by
  unfold shrIdNodePut
  split
  · next hnone =>
      have hne := Keyed.get_eq_none.mp hnone
      exact { h with ok := fun m hm => by simpa [hne m hm] using h.ok m hm }
  · next node hget =>
      have hmem := Keyed.mem_of_get hget
      have hkey := Keyed.key_of_get hget
      have hok := h.okOf hmem hkey
      dsimp only
      split_ifs with hzero
      · obtain ⟨hpid, hopen⟩ := hok.last hzero
        have hsame : Same node { node with ref := node.ref - 1 } := ⟨rfl, rfl, rfl⟩
        exact h.release hmem hkey hsame hpid hopen
      · exact (h.set hmem hkey (hok.put hzero) ⟨rfl, rfl, rfl⟩).1

theorem create (h : ShrIdInv k 0 s) (hpid : 0 < pid) (attr : ShrIdNodeOpAttr) (remote : Bool)
    (ans : Except Errno Unit) :
    ShrIdInv k 0 (shrIdNodeCreate s name pid now attr remote ans).1 := by
  have hfresh : ∀ r ∈ s.gets, r.serial ≠ s.next := fun r hr => (h.serial r hr).ne
  unfold shrIdNodeCreate
  split
  · exact h
  · set node := ShrIdNode.init s.next name pid now attr remote with hnode
    have hremote : node.remote = remote := rfl
    have hserial : node.taken.serial = s.next := rfl
    have hgets : ∀ r ∈ (if remote then s.gets else node.taken :: s.gets),
        r.serial < s.next + 1 := by
      intro r hr
      split_ifs at hr
      · exact Nat.lt_succ_of_lt (h.serial r hr)
      · rcases List.mem_cons.mp hr with rfl | hr
        · exact Nat.lt_succ_self _
        · exact Nat.lt_succ_of_lt (h.serial r hr)
    have hnodup : ((if remote then s.gets else node.taken :: s.gets).map
        ShrIdTaken.serial).Nodup := by
      split_ifs
      · exact h.nodup
      · refine List.nodup_cons.mpr ⟨fun hin => ?_, h.nodup⟩
        obtain ⟨r, hr, heq⟩ := List.mem_map.mp hin
        exact hfresh r hr (heq.trans hserial)
    dsimp only
    split
    · -- the name is taken, and the id goes back at once
      unfold ShrIdState.putId
      rw [hremote]
      have hmiddle (l : List ShrIdNode) : (takenBy (l ++ node :: s.refused)).Perm
          (takenBy (node :: (l ++ s.refused))) := takenBy_perm List.perm_middle
      split_ifs at hgets hnodup ⊢ with hr
      · refine ⟨h.uniq, h.ok, h.freed, h.gets, h.puts.trans ?_, hnodup, hgets⟩
        refine .trans ?_ (hmiddle s.freed).symm
        rw [takenBy_cons, hremote, if_pos hr]
      · refine ⟨h.uniq, h.ok, h.freed, ?_, (h.puts.cons _).trans ?_, hnodup, hgets⟩
        · exact (h.gets.cons _).trans List.perm_middle.symm
        · refine .trans ?_ (hmiddle s.freed).symm
          rw [takenBy_cons, hremote, if_neg hr]
    · next hnone =>
        have hne := Keyed.get_eq_none.mp hnone
        refine ⟨h.uniq.cons hne, fun m hm => ?_, h.freed, ?_, h.puts, hnodup, hgets⟩
        · rcases List.mem_cons.mp hm with rfl | hm
          · simpa using Ok.init (by omega)
          · exact h.ok m hm
        · dsimp only
          rw [takenBy_cons, hremote]
          split_ifs
          · exact h.gets
          · exact h.gets.cons _

theorem openBy (h : ShrIdInv k 0 s) : ShrIdInv k 0 (shrIdNodeOpen s name type pid startTime).1 := by
  unfold shrIdNodeOpen
  split
  · exact h
  · next t node hget =>
      obtain ⟨hinv, hmem, hkey, -⟩ := h.rekey (type, name) |>.get hget
      split
      · exact (hkey ▸ hinv.put).rekey k
      · next node' hok =>
          obtain ⟨hok', hsame⟩ := (hinv.okOf hmem hkey).openBy hok
          exact (hinv.set hmem hkey hok' hsame).1.rekey k

/-- A call that succeeds drops its own reference and one more. -/
theorem put_put {node' : ShrIdNode} (h : ShrIdInv (type, name) 1 s) (hmem : node ∈ s.nodes)
    (hkey : node.key = (type, name)) (hok : node'.Ok 2) (hsame : Same node node') :
    ShrIdInv k 0 (shrIdNodePut (shrIdNodePut (s.setNode node') node'.key) node'.key) := by
  rw [hsame.key, hkey]
  exact (h.set hmem hkey hok hsame).1.put.put.rekey k

theorem closeBy (h : ShrIdInv k 0 s) : ShrIdInv k 0 (shrIdNodeClose s name type pid).1 := by
  unfold shrIdNodeClose
  split
  · exact h
  · next t node hget =>
      obtain ⟨hinv, hmem, hkey, -⟩ := h.rekey (type, name) |>.get hget
      split
      · exact (hkey ▸ hinv.put).rekey k
      · next node' hok =>
          obtain ⟨hok', hsame⟩ := (hinv.okOf hmem hkey).closeBy hok
          exact hinv.put_put hmem hkey hok' hsame

theorem destroy (h : ShrIdInv k 0 s) (hpid : 0 < pid) :
    ShrIdInv k 0 (shrIdNodeDestroy s name type pid).1 := by
  unfold shrIdNodeDestroy
  split
  · exact h
  · next t node hget =>
      obtain ⟨hinv, hmem, hkey, -⟩ := h.rekey (type, name) |>.get hget
      split
      · exact (hkey ▸ hinv.put).rekey k
      · next node' hok =>
          obtain ⟨hok', hsame⟩ := (hinv.okOf hmem hkey).uninit hpid hok
          exact hinv.put_put hmem hkey hok' hsame

theorem setPids (h : ShrIdInv k 0 s) (hpid : 0 < pid) (pids : List (ℤ × ℕ)) :
    ShrIdInv k 0 (shrIdNodeSetPids s name type pid pids).1 := by
  unfold shrIdNodeSetPids
  split
  · exact h
  · next t node hget =>
      obtain ⟨hinv, hmem, hkey, -⟩ := h.rekey (type, name) |>.get hget
      obtain ⟨hok', hsame⟩ := (hinv.okOf hmem hkey).setPids hpid pids
      have hset := (hinv.set hmem hkey hok' hsame).1
      dsimp only
      rw [hsame.key, hkey]
      exact hset.put.rekey k

theorem step {op : ShrIdOp} (h : ShrIdInv k 0 s) (hpid : 0 < op.pid) :
    ShrIdInv k 0 (op.exec s) := by
  cases op with
  | create name pid now attr remote ans => exact h.create hpid attr remote ans
  | «open» name type pid startTime => exact h.openBy
  | close name type pid => exact h.closeBy
  | destroy name type pid => exact h.destroy hpid
  | setPids name type pid pids => exact h.setPids hpid pids

theorem reach (h : shrIdMachine.Reach s) : ShrIdInv k 0 s := by
  refine h.invariant (fun s hs => ?_) fun s op t hinv _ hstep => ?_
  · rw [hs]
    exact init
  · simp only [shrIdMachine, Option.ite_none_right_eq_some, Option.some.injEq] at hstep
    obtain ⟨hpid, rfl⟩ := hstep
    exact hinv.step hpid

end ShrIdInv

/-- The protocol of the shared ids, in a state between calls.  A node that is
not remote took its id when it was created; it puts it once, when it is
released, or at once when its name is in use.  A remote node does neither. -/
structure ShrIdProtocol (s : ShrIdState) : Prop where
  ref : ∀ node ∈ s.nodes, node.ref = node.creatorRef + node.openSum
  no_saturation : ∀ node ∈ s.nodes, node.ref + 1 < 2 ^ 31
  open_granted : ∀ name type pid startTime t inst id, 0 < pid →
    shrIdNodeOpen s name type pid startTime = (t, .ok (inst, id)) →
    ∃ node ∈ s.nodes, node.key = (type, name) ∧ node.attr.inst = inst ∧ node.attr.id = id ∧
      (node.creator, pid) ∈ node.grants ∧
      ∃ i, (node.wlist i).pid = pid ∧ timeAfter startTime (node.wlist i).setTime = false
  close_opened : ∀ name type pid t, shrIdNodeClose s name type pid = (t, .ok ()) →
    ∃ node ∈ s.nodes, node.key = (type, name) ∧
      ∃ i, (node.wlist i).pid = pid ∧ 0 < (node.wlist i).openNum
  referred : ∀ node ∈ s.nodes, node.pid ≠ 0 ∨ ∃ i, 0 < (node.wlist i).openNum
  freed : ∀ node ∈ s.freed, node.pid = 0 ∧ ∀ i, (node.wlist i).openNum = 0
  taken : s.gets.Perm (takenBy s.nodes ++ s.puts)
  put_back : s.puts.Perm (takenBy (s.freed ++ s.refused))
  once : (s.gets.map ShrIdTaken.serial).Nodup

theorem ShrIdNode.Ok.referred (h : node.Ok 0) :
    node.pid ≠ 0 ∨ ∃ i, 0 < (node.wlist i).openNum := by
  by_contra hnot
  simp only [not_or, not_not, not_exists, Nat.not_lt, Nat.le_zero] at hnot
  obtain ⟨hpid, hopen⟩ := hnot
  have hsum : node.openSum = 0 := sum_eq_zero fun i _ => hopen i
  have href := h.ref
  have hpos := h.pos
  rw [creatorRef, if_pos hpid] at href
  omega

namespace ShrIdInv

theorem open_granted {inst : TrsIdInst} {id : ℤ} (h : ShrIdInv k 0 s) (hpid : 0 < pid)
    (hok : shrIdNodeOpen s name type pid startTime = (t, .ok (inst, id))) :
    ∃ node ∈ s.nodes, node.key = (type, name) ∧ node.attr.inst = inst ∧ node.attr.id = id ∧
      (node.creator, pid) ∈ node.grants ∧
      ∃ i, (node.wlist i).pid = pid ∧ timeAfter startTime (node.wlist i).setTime = false := by
  unfold shrIdNodeOpen at hok
  split at hok
  · cases hok
  · next u node hget =>
      obtain ⟨hinv, hmem, hkey, m, hm, rfl⟩ := h.rekey (type, name) |>.get hget
      split at hok
      · cases hok
      · next node' hopen =>
          obtain ⟨i, hi, htime, -, rfl⟩ := openBy_cases hopen
          cases hok
          have hgrant := (h.ok m hm).grants i
          dsimp only at hi
          rw [hi] at hgrant
          exact ⟨m, hm, hkey, rfl, rfl, hgrant (by omega), i, hi, htime⟩

theorem close_opened (h : ShrIdInv k 0 s) (hok : shrIdNodeClose s name type pid = (t, .ok ())) :
    ∃ node ∈ s.nodes, node.key = (type, name) ∧
      ∃ i, (node.wlist i).pid = pid ∧ 0 < (node.wlist i).openNum := by
  unfold shrIdNodeClose at hok
  split at hok
  · cases hok
  · next u node hget =>
      obtain ⟨hinv, hmem, hkey, m, hm, rfl⟩ := h.rekey (type, name) |>.get hget
      split at hok
      · cases hok
      · next node' hclose =>
          obtain ⟨i, hi, hpos, -⟩ := closeBy_cases hclose
          exact ⟨m, hm, hkey, i, hi, hpos⟩

theorem protocol (h : ShrIdInv k 0 s) : ShrIdProtocol s where
  ref node hnode := by simpa using (h.ok node hnode).ref
  no_saturation node hnode := by
    have hlt := (h.ok node hnode).ref_lt
    rw [ite_self] at hlt
    omega
  open_granted _ _ _ _ _ _ _ hpid hok := h.open_granted hpid hok
  close_opened _ _ _ _ hok := h.close_opened hok
  referred node hnode := ShrIdNode.Ok.referred (by simpa using h.ok node hnode)
  freed := h.freed
  taken := h.gets
  put_back := h.puts
  once := h.nodup

end ShrIdInv

/-- Creates, opens, closes, destroys and changes of the list keep the
protocol, in any order. -/
theorem shr_id_protocol (h : shrIdMachine.Reach s) : ShrIdProtocol s :=
  (ShrIdInv.reach (k := (0, [])) h).protocol

def shrIdAttrExample : ShrIdNodeOpAttr where
  inst := { devid := 0, tsid := 0 }
  resType := 8
  type := 0
  id := 3

/-- The creator lists a process, which opens; the creator destroys before the
process closes. -/
def shrIdRunExample : List ShrIdOp :=
  [.create [97] 1 10 shrIdAttrExample false (.ok ()), .setPids [97] 0 1 [(2, 20)],
    .open [97] 0 2 5, .destroy [97] 0 1, .close [97] 0 2]

theorem shr_id_protocol_run : ShrIdProtocol (shrIdMachine.final shrIdInit shrIdRunExample) :=
  shr_id_protocol (Machine.Reach.final (.start rfl) (by decide +kernel))

/-- The id of a remote node is not put when its node is released. -/
theorem shr_id_remote_never_put :
    ¬ ∀ s, shrIdMachine.Reach s → ∀ node ∈ s.freed, node.taken ∈ s.puts := by
  intro h
  have hreach : shrIdMachine.Reach (shrIdMachine.final shrIdInit
      [.create [97] 1 10 shrIdAttrExample true (.ok ()), .destroy [97] 0 1]) :=
    Machine.Reach.final (.start rfl) (by decide +kernel)
  have hput := List.forall_mem_iff_forall_getElem.mp (h _ hreach) 0 (by decide +kernel)
  revert hput
  decide +kernel

end OpiaiKernel.Trs
