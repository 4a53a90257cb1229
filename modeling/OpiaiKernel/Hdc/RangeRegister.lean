import OpiaiKernel.Hdc.HdcError
import OpiaiKernel.Hdc.RangeTree
import OpiaiKernel.Lib.Machine
import Mathlib.Data.List.FinRange
import Mathlib.Logic.Function.Basic

/-!
# Registered memory

A process owns a slot of the array of trees from its first registration on; the slot is
found, checked and filled in sections of their own.  The release of a slot does not look
again at what the test of its tree has seen.
-/

namespace OpiaiKernel.Hdc

def HDCDRV_SUPPORT_MAX_FID_PID : ℕ := 128
def HDCDRV_SUPPORT_MAX_DEV : ℕ := 64
def HDCDRV_INVALID_FID : UInt32 := 0xFFFFFFFF

abbrev ArryIdx := Fin HDCDRV_SUPPORT_MAX_FID_PID
abbrev DevId := Fin HDCDRV_SUPPORT_MAX_DEV

instance : NeZero HDCDRV_SUPPORT_MAX_DEV := ⟨by decide⟩
instance : NeZero HDCDRV_SUPPORT_MAX_FID_PID := ⟨by decide⟩

inductive RbSide
  | local
  | remote
  deriving DecidableEq, Repr

structure NodeTreeInfo where
  pid : UInt64
  fid : UInt32
  deriving DecidableEq, Repr

/-- The mark of a slot without an owner. -/
def NodeTreeInfo.invalid : NodeTreeInfo := ⟨HDCDRV_INVALID_PID, HDCDRV_INVALID_FID⟩

/-- What a registration or its end has to do next. -/
inductive RegCall
  | findSlot (owner : NodeTreeInfo) (dev : DevId) (node : FastNode)
  | nodesConflict (idx : ArryIdx) (owner : NodeTreeInfo) (dev : DevId) (node : FastNode)
  | insertNew (idx : ArryIdx) (owner : NodeTreeInfo) (dev : DevId) (node : FastNode)
      (firstNode : Bool)
  | setPid (idx : ArryIdx) (owner : NodeTreeInfo)
  | eraseFind (owner : NodeTreeInfo) (dev : DevId) (node : FastNode)
  | nodeErase (idx : ArryIdx) (owner : NodeTreeInfo) (dev : DevId) (node : FastNode)
  | treeIsEmpty (idx : ArryIdx) (owner : NodeTreeInfo) (dev : DevId)
  | clearPid (idx : ArryIdx) (owner : NodeTreeInfo)
  deriving DecidableEq, Repr

/-- The array of one side with the calls under way and the ranges that are registered. -/
structure NodeTreeState where
  treeInfo : ArryIdx → NodeTreeInfo
  root : ArryIdx → DevId → FastTree
  calls : List RegCall
  registered : NodeTreeInfo → DevId → List FastNode

def hdcdrvFastNodeArryFindArryIdx (treeInfo : ArryIdx → NodeTreeInfo) (owner : NodeTreeInfo) :
    Option ArryIdx :=
  (List.finRange HDCDRV_SUPPORT_MAX_FID_PID).find? fun idx => treeInfo idx = owner

/-- The tree of the device; the local side has one tree for all devices. -/
def hdcdrvGetCtrlArryUniEx (side : RbSide) (dev : DevId) : DevId :=
  match side with
  | .local => 0
  | .remote => dev

namespace NodeTreeState

def setInfo (s : NodeTreeState) (idx : ArryIdx) (owner : NodeTreeInfo) : NodeTreeState :=
  { s with treeInfo := Function.update s.treeInfo idx owner }

def setRoot (s : NodeTreeState) (idx : ArryIdx) (dev : DevId) (root : FastTree) :
    NodeTreeState :=
  { s with root := Function.update s.root idx (Function.update (s.root idx) dev root) }

def setRegistered (s : NodeTreeState) (owner : NodeTreeInfo) (dev : DevId)
    (nodes : List FastNode) : NodeTreeState :=
  { s with
    registered :=
      Function.update s.registered owner (Function.update (s.registered owner) dev nodes) }

/-- The call goes on with its next section. -/
def goOn (s : NodeTreeState) (call : RegCall) : NodeTreeState :=
  { s with calls := call :: s.calls }

end NodeTreeState

inductive RegAct
  | insertToArry (owner : NodeTreeInfo) (dev : DevId) (node : FastNode)
  | eraseFromArry (owner : NodeTreeInfo) (dev : DevId) (node : FastNode)
  | run (call : RegCall) (balanced : FastTree)
  deriving DecidableEq, Repr

/-- One section of a call; `balanced` is the tree that the balancing leaves. -/
def regCallStep (s : NodeTreeState) (balanced : FastTree) : RegCall → Option NodeTreeState
  | .findSlot owner dev node =>
      match hdcdrvFastNodeArryFindArryIdx s.treeInfo owner with
      | some idx => some (s.goOn (.nodesConflict idx owner dev node))
      | none =>
          match hdcdrvFastNodeArryFindArryIdx s.treeInfo .invalid with
          | some idx => some ((s.setInfo idx owner).goOn (.insertNew idx owner dev node true))
          | none => some s
  | .nodesConflict idx owner dev node =>
      match hdcdrvFastNodesConflict node (s.root idx dev) with
      | some _ => some s
      | none => some (s.goOn (.insertNew idx owner dev node false))
  | .insertNew idx owner dev node firstNode =>
      match hdcdrvFastNodeInsertNew node (s.root idx dev) with
      | none => some s
      | some root =>
          if balanced.toList = root.toList then
            let s := (s.setRoot idx dev balanced).setRegistered owner dev
              (node :: s.registered owner dev)
            some (if firstNode then s else s.goOn (.setPid idx owner))
          else none
  | .setPid idx owner => some (s.setInfo idx owner)
  | .eraseFind owner dev node =>
      match hdcdrvFastNodeArryFindArryIdx s.treeInfo owner with
      | some idx => some (s.goOn (.nodeErase idx owner dev node))
      | none => some s
  | .nodeErase idx owner dev node =>
      if balanced.toList = (s.root idx dev).toList.erase node then
        some (((s.setRoot idx dev balanced).setRegistered owner dev
          ((s.registered owner dev).erase node)).goOn (.treeIsEmpty idx owner dev))
      else none
  | .treeIsEmpty idx owner dev =>
      if s.root idx dev = .nil then some (s.goOn (.clearPid idx owner)) else some s
  | .clearPid idx _ => some (s.setInfo idx .invalid)

/-- A range that is unregistered is registered. -/
def nodeTreeStep (side : RbSide) (s : NodeTreeState) : RegAct → Option NodeTreeState
  | .insertToArry owner dev node =>
      some (s.goOn (.findSlot owner (hdcdrvGetCtrlArryUniEx side dev) node))
  | .eraseFromArry owner dev node =>
      if node ∈ s.registered owner (hdcdrvGetCtrlArryUniEx side dev) then
        some (s.goOn (.eraseFind owner (hdcdrvGetCtrlArryUniEx side dev) node))
      else none
  | .run call balanced =>
      if call ∈ s.calls then
        regCallStep { s with calls := s.calls.erase call } balanced call
      else none

/-- The array after its initialisation. -/
def nodeTreeMachine (side : RbSide) : Machine NodeTreeState RegAct where
  init s := s = ⟨fun _ => .invalid, fun _ _ => .nil, [], fun _ _ => []⟩
  step := nodeTreeStep side

/-- `hdcdrv_fast_node_search_timeout_from_arry`. -/
def hdcdrvFastNodeSearchTimeoutFromArry (side : RbSide) (s : NodeTreeState)
    (owner : NodeTreeInfo) (dev : DevId) (vaAddr : UInt64) (len : UInt32) : Option FastNode :=
  match hdcdrvFastNodeArryFindArryIdx s.treeInfo owner with
  | none => none
  | some idx =>
      hdcdrvFastNodeArrySearch vaAddr len (s.root idx (hdcdrvGetCtrlArryUniEx side dev))

/-! ## What is promised -/

/-- The ranges share no address. -/
def FastNode.Apart (m n : FastNode) : Prop :=
  m.stop ≤ n.userVa.toNat ∨ n.stop ≤ m.userVa.toNat

structure NodeTreeOk (side : RbSide) (s : NodeTreeState) : Prop where
  slot : ∀ owner dev, s.registered owner dev ≠ [] → ∃! idx, s.treeInfo idx = owner
  exact : ∀ idx dev, (s.root idx dev).toList.Perm (s.registered (s.treeInfo idx) dev)
  apart : ∀ idx dev, (s.root idx dev).toList.Pairwise FastNode.Apart
  search : ∀ owner dev vaAddr len, 0 < len.toNat → vaAddr.toNat + len.toNat < 2 ^ 64 → ∀ node,
    hdcdrvFastNodeSearchTimeoutFromArry side s owner dev vaAddr len = some node ↔
      node ∈ s.registered owner (hdcdrvGetCtrlArryUniEx side dev) ∧ node.Contains vaAddr len
  start : ∀ owner dev vaAddr node,
    hdcdrvFastNodeSearchTimeoutFromArry side s owner dev vaAddr 0 = some node ↔
      node ∈ s.registered owner (hdcdrvGetCtrlArryUniEx side dev) ∧ node.userVa = vaAddr

/-- The range that the call takes out of its tree. -/
def RegCall.erases : RegCall → Option (NodeTreeInfo × DevId × FastNode)
  | .eraseFind owner dev node => some (owner, dev, node)
  | .nodeErase _ owner dev node => some (owner, dev, node)
  | _ => none

/-- The slot that the call has found for its registration. -/
def RegCall.registersIn : RegCall → Option ArryIdx
  | .nodesConflict idx _ _ _ => some idx
  | .insertNew idx _ _ _ _ => some idx
  | .setPid idx _ => some idx
  | _ => none

/-- A range is linked where the check still finds no conflict, and a slot is given up when
all its trees are empty and no registration has found it. -/
def undisturbed (side : RbSide) (s : NodeTreeState) : RegAct → Bool
  | .insertToArry owner _ node => owner ≠ .invalid ∧ node.Fits
  | .eraseFromArry owner dev node =>
      s.calls.all fun call =>
        call.erases ≠ some (owner, hdcdrvGetCtrlArryUniEx side dev, node)
  | .run (.insertNew idx _ dev node _) _ =>
      hdcdrvFastNodesConflict node (s.root idx dev) = none
  | .run (.clearPid idx _) _ =>
      ((List.finRange HDCDRV_SUPPORT_MAX_DEV).all fun dev => s.root idx dev = .nil) ∧
        s.calls.all fun call => call.registersIn ≠ some idx
  | _ => true

/-! ## The invariant -/

variable {side : RbSide} {s t : NodeTreeState} {call : RegCall} {owner : NodeTreeInfo}
  {idx : ArryIdx} {dev : DevId} {node : FastNode}

/-- What a call relies on. -/
def RegCall.Sound (s : NodeTreeState) : RegCall → Prop
  | .findSlot owner _ node => owner ≠ .invalid ∧ node.Fits
  | .nodesConflict idx owner _ node =>
      (s.treeInfo idx = owner ∧ owner ≠ .invalid) ∧ node.Fits
  | .insertNew idx owner _ node _ => (s.treeInfo idx = owner ∧ owner ≠ .invalid) ∧ node.Fits
  | .setPid idx owner => s.treeInfo idx = owner ∧ owner ≠ .invalid
  | .eraseFind owner dev node => node ∈ s.registered owner dev
  | .nodeErase idx owner dev node =>
      s.treeInfo idx = owner ∧ node ∈ s.registered owner dev
  | .treeIsEmpty .. => True
  | .clearPid .. => True

structure NodeTreeInv (s : NodeTreeState) : Prop where
  keyed : ∀ i j, s.treeInfo i = s.treeInfo j → s.treeInfo i ≠ .invalid → i = j
  exact : ∀ idx dev, (s.root idx dev).toList.Perm (s.registered (s.treeInfo idx) dev)
  ordered : ∀ idx dev, (s.root idx dev).Ordered
  owned : ∀ owner dev node, node ∈ s.registered owner dev →
    owner ≠ .invalid ∧ ∃ idx, s.treeInfo idx = owner
  sound : ∀ call ∈ s.calls, call.Sound s
  erases : (s.calls.filterMap RegCall.erases).Nodup

theorem hdcdrvFastNodeArryFindArryIdx_some {treeInfo : ArryIdx → NodeTreeInfo}
    (h : hdcdrvFastNodeArryFindArryIdx treeInfo owner = some idx) : treeInfo idx = owner := by
  simpa using List.find?_some h

theorem hdcdrvFastNodeArryFindArryIdx_none {treeInfo : ArryIdx → NodeTreeInfo} :
    hdcdrvFastNodeArryFindArryIdx treeInfo owner = none ↔ ∀ idx, treeInfo idx ≠ owner := by
  simp [hdcdrvFastNodeArryFindArryIdx, List.find?_eq_none]

theorem NodeTreeInv.registered_invalid (hinv : NodeTreeInv s) (dev : DevId) :
    s.registered .invalid dev = [] :=
  List.eq_nil_iff_forall_not_mem.mpr fun node hnode =>
    (hinv.owned .invalid dev node hnode).1 rfl

/-- The calls change. -/
theorem NodeTreeInv.congr (hinv : NodeTreeInv s) {calls : List RegCall}
    (hsound : ∀ call ∈ calls, call.Sound s) (herases : (calls.filterMap RegCall.erases).Nodup) :
    NodeTreeInv { s with calls := calls } where
  keyed := hinv.keyed
  exact := hinv.exact
  ordered := hinv.ordered
  owned := hinv.owned
  sound call hcall := by
    have := hsound call hcall
    cases call <;> exact this
  erases := herases

theorem NodeTreeInv.drop (hinv : NodeTreeInv s) (call : RegCall) :
    NodeTreeInv { s with calls := s.calls.erase call } :=
  hinv.congr (fun c hc => hinv.sound c (List.mem_of_mem_erase hc))
    (hinv.erases.sublist (List.erase_sublist.filterMap _))

/-- No other call takes the range out. -/
theorem NodeTreeInv.erases_ne (hinv : NodeTreeInv s) (hcall : call ∈ s.calls)
    {x : NodeTreeInfo × DevId × FastNode} (hx : call.erases = some x) {other : RegCall}
    (hother : other ∈ s.calls.erase call) : other.erases ≠ some x := by
  have hnodup := ((List.perm_cons_erase hcall).filterMap RegCall.erases).nodup_iff.mp hinv.erases
  rw [List.filterMap_cons_some hx] at hnodup
  intro heq
  exact (List.nodup_cons.mp hnodup).1 (List.mem_filterMap.mpr ⟨other, hother, heq⟩)

/-- A call goes on. -/
theorem NodeTreeInv.goOn (hinv : NodeTreeInv s) (hcall : call.Sound s)
    (herases : ∀ x, call.erases = some x → ∀ c ∈ s.calls, c.erases ≠ some x) :
    NodeTreeInv (s.goOn call) := by
  refine hinv.congr ?_ ?_
  · intro c hc
    rcases List.mem_cons.mp hc with rfl | hc
    · exact hcall
    · exact hinv.sound c hc
  · cases hx : call.erases with
    | none => rw [List.filterMap_cons_none hx]; exact hinv.erases
    | some x =>
        rw [List.filterMap_cons_some hx, List.nodup_cons]
        refine ⟨fun hmem => ?_, hinv.erases⟩
        obtain ⟨c, hc, hcx⟩ := List.mem_filterMap.mp hmem
        exact herases x hx c hc hcx

/-- An idle slot gets an owner. -/
theorem NodeTreeInv.take (hinv : NodeTreeInv s) (hidle : s.treeInfo idx = .invalid)
    (hnew : ∀ i, s.treeInfo i ≠ owner) :
    NodeTreeInv (s.setInfo idx owner) := by
  have hother : ∀ i, s.treeInfo i ≠ .invalid → (s.setInfo idx owner).treeInfo i = s.treeInfo i :=
    fun i hi => Function.update_of_ne (fun heq => hi ((congrArg s.treeInfo heq).trans hidle)) _ _
  have hnil : ∀ dev, s.registered owner dev = [] := by
    refine fun dev => List.eq_nil_iff_forall_not_mem.mpr fun node hnode => ?_
    obtain ⟨-, i, hi⟩ := hinv.owned owner dev node hnode
    exact hnew i hi
  refine ⟨?_, ?_, hinv.ordered, ?_, ?_, hinv.erases⟩
  · intro i j hij hi
    simp only [NodeTreeState.setInfo, Function.update_apply] at hij hi
    split_ifs at hij hi with h₁ h₂ h₂
    · rw [h₁, h₂]
    · exact absurd hij.symm (hnew j)
    · exact absurd hij (hnew i)
    · exact hinv.keyed i j hij hi
  · intro i dev
    by_cases hi : i = idx
    · subst hi
      have hroot := hinv.exact i dev
      rw [hidle, hinv.registered_invalid] at hroot
      simpa [NodeTreeState.setInfo, hnil] using hroot
    · have hinfo : (s.setInfo idx owner).treeInfo i = s.treeInfo i :=
        Function.update_of_ne hi _ _
      rw [hinfo]
      exact hinv.exact i dev
  · intro o dev n hn
    obtain ⟨ho, i, hi⟩ := hinv.owned o dev n hn
    exact ⟨ho, i, (hother i (hi ▸ ho)).trans hi⟩
  · intro c hc
    have hsound := hinv.sound c hc
    cases c with
    | findSlot o d n => exact hsound
    | nodesConflict i o d n =>
        exact ⟨⟨(hother i (hsound.1.1 ▸ hsound.1.2)).trans hsound.1.1, hsound.1.2⟩, hsound.2⟩
    | insertNew i o d n first =>
        exact ⟨⟨(hother i (hsound.1.1 ▸ hsound.1.2)).trans hsound.1.1, hsound.1.2⟩, hsound.2⟩
    | setPid i o => exact ⟨(hother i (hsound.1 ▸ hsound.2)).trans hsound.1, hsound.2⟩
    | eraseFind o d n => exact hsound
    | nodeErase i o d n =>
        have ho := (hinv.owned o d n hsound.2).1
        exact ⟨(hother i (hsound.1 ▸ ho)).trans hsound.1, hsound.2⟩
    | treeIsEmpty i o d => trivial
    | clearPid i o => trivial

/-- A slot is given up. -/
theorem NodeTreeInv.giveUp (hinv : NodeTreeInv s) (hempty : ∀ dev, s.root idx dev = .nil)
    (hfree : ∀ call ∈ s.calls, call.registersIn ≠ some idx) :
    NodeTreeInv (s.setInfo idx .invalid) := by
  have hother : ∀ i, i ≠ idx → (s.setInfo idx .invalid).treeInfo i = s.treeInfo i :=
    fun i hi => Function.update_of_ne hi _ _
  have hself : (s.setInfo idx .invalid).treeInfo idx = .invalid := Function.update_self ..
  have hnil : ∀ dev, s.registered (s.treeInfo idx) dev = [] := by
    intro dev
    have hroot := hinv.exact idx dev
    rw [hempty] at hroot
    exact hroot.symm.eq_nil
  refine ⟨?_, ?_, hinv.ordered, ?_, ?_, hinv.erases⟩
  · intro i j hij hi
    have hi' : i ≠ idx := fun heq => hi (heq ▸ hself)
    have hj' : j ≠ idx := fun heq => hi (hij.trans (heq ▸ hself))
    rw [hother i hi', hother j hj'] at hij
    rw [hother i hi'] at hi
    exact hinv.keyed i j hij hi
  · intro i dev
    by_cases hi : i = idx
    · subst hi
      rw [hself]
      have hroot : (s.setInfo i .invalid).root i dev = .nil := hempty dev
      have hreg : (s.setInfo i .invalid).registered .invalid dev = [] :=
        hinv.registered_invalid dev
      rw [hroot, hreg]
      exact List.Perm.refl _
    · rw [hother i hi]
      exact hinv.exact i dev
  · intro o dev n hn
    obtain ⟨ho, i, hi⟩ := hinv.owned o dev n hn
    refine ⟨ho, i, (hother i ?_).trans hi⟩
    rintro rfl
    have hn' : n ∈ s.registered o dev := hn
    rw [← hi, hnil] at hn'
    exact absurd hn' List.not_mem_nil
  · intro c hc
    have hsound := hinv.sound c hc
    have hne := hfree c hc
    cases c with
    | findSlot o d n => exact hsound
    | nodesConflict i o d n =>
        have hi : i ≠ idx := fun heq => hne (heq ▸ rfl)
        exact ⟨⟨(hother i hi).trans hsound.1.1, hsound.1.2⟩, hsound.2⟩
    | insertNew i o d n first =>
        have hi : i ≠ idx := fun heq => hne (heq ▸ rfl)
        exact ⟨⟨(hother i hi).trans hsound.1.1, hsound.1.2⟩, hsound.2⟩
    | setPid i o =>
        have hi : i ≠ idx := fun heq => hne (heq ▸ rfl)
        exact ⟨(hother i hi).trans hsound.1, hsound.2⟩
    | eraseFind o d n => exact hsound
    | nodeErase i o d n =>
        refine ⟨(hother i ?_).trans hsound.1, hsound.2⟩
        rintro rfl
        have hn := hsound.2
        rw [← hsound.1, hnil] at hn
        exact absurd hn List.not_mem_nil
    | treeIsEmpty i o d => trivial
    | clearPid i o => trivial

theorem FastTree.Ordered.congr {t t' : FastTree} (h : t.Ordered) (heq : t'.toList = t.toList) :
    t'.Ordered :=
  ⟨heq ▸ h.before, heq ▸ h.fits⟩

theorem FastTree.Ordered.sublist {t t' : FastTree} (h : t.Ordered)
    (hsub : t'.toList.Sublist t.toList) : t'.Ordered :=
  ⟨h.before.sublist hsub, fun n hn => h.fits n (hsub.subset hn)⟩

/-- One tree and what is registered for it are written. -/
theorem NodeTreeInv.write (hinv : NodeTreeInv s) (dev : DevId) (hidx : s.treeInfo idx = owner)
    (howner : owner ≠ .invalid) {root : FastTree} {nodes : List FastNode}
    (hperm : root.toList.Perm nodes) (hord : root.Ordered)
    (hkeep : ∀ c ∈ s.calls, ∀ n, c.erases = some (owner, dev, n) →
      n ∈ s.registered owner dev → n ∈ nodes) :
    NodeTreeInv ((s.setRoot idx dev root).setRegistered owner dev nodes) := by
  set t := (s.setRoot idx dev root).setRegistered owner dev nodes with ht
  have hroot : ∀ i d, t.root i d = if i = idx ∧ d = dev then root else s.root i d := by
    intro i d
    by_cases hi : i = idx <;> by_cases hd : d = dev <;>
      simp [ht, NodeTreeState.setRoot, NodeTreeState.setRegistered, hi, hd]
  have hreg : ∀ o d, t.registered o d =
      if o = owner ∧ d = dev then nodes else s.registered o d := by
    intro o d
    by_cases ho : o = owner <;> by_cases hd : d = dev <;>
      simp [ht, NodeTreeState.setRoot, NodeTreeState.setRegistered, ho, hd]
  have hinfo : t.treeInfo = s.treeInfo := rfl
  refine ⟨hinv.keyed, ?_, ?_, ?_, ?_, hinv.erases⟩
  · intro i d
    rw [hroot, hreg, hinfo]
    have hiff : i = idx ↔ s.treeInfo i = owner :=
      ⟨fun h => h ▸ hidx, fun h => hinv.keyed i idx (h.trans hidx.symm) (h ▸ howner)⟩
    by_cases hd : d = dev
    · by_cases hi : i = idx
      · rw [if_pos ⟨hi, hd⟩, if_pos ⟨hiff.mp hi, hd⟩]
        exact hperm
      · rw [if_neg (fun h => hi h.1), if_neg (fun h => hi (hiff.mpr h.1))]
        exact hinv.exact i d
    · rw [if_neg (fun h => hd h.2), if_neg (fun h => hd h.2)]
      exact hinv.exact i d
  · intro i d
    rw [hroot]
    split_ifs
    · exact hord
    · exact hinv.ordered i d
  · intro o d n hn
    rw [hreg] at hn
    split_ifs at hn with h
    · exact ⟨h.1 ▸ howner, idx, hidx.trans h.1.symm⟩
    · exact hinv.owned o d n hn
  · intro c hc
    have hsound := hinv.sound c hc
    have hstay : ∀ o d n, c.erases = some (o, d, n) → n ∈ s.registered o d →
        n ∈ t.registered o d := by
      intro o d n hcn hn
      rw [hreg]
      split_ifs with h
      · obtain ⟨rfl, rfl⟩ := h
        exact hkeep c hc n hcn hn
      · exact hn
    cases c with
    | eraseFind o d n => exact hstay o d n rfl hsound
    | nodeErase i o d n => exact ⟨hsound.1, hstay o d n rfl hsound.2⟩
    | findSlot | nodesConflict | insertNew | setPid | treeIsEmpty | clearPid => exact hsound

/-! ## The steps -/

theorem regCallStep_inv (hinv : NodeTreeInv s) (hcall : call ∈ s.calls) {balanced : FastTree}
    (hok : undisturbed side s (.run call balanced) = true)
    (hstep : regCallStep { s with calls := s.calls.erase call } balanced call = some t) :
    NodeTreeInv t := by
  have hdrop := hinv.drop call
  have hsound := hinv.sound call hcall
  cases call with
  | findSlot o d n =>
      simp only [regCallStep] at hstep
      split at hstep
      · next i hfind =>
          cases hstep
          have hi := hdcdrvFastNodeArryFindArryIdx_some hfind
          exact hdrop.goOn ⟨⟨hi, hsound.1⟩, hsound.2⟩ nofun
      · next hnone =>
          have hnew := hdcdrvFastNodeArryFindArryIdx_none.mp hnone
          split at hstep
          · next i hfind =>
              cases hstep
              have hi := hdcdrvFastNodeArryFindArryIdx_some hfind
              have htake := hdrop.take hi hnew
              exact htake.goOn ⟨⟨Function.update_self .., hsound.1⟩, hsound.2⟩ nofun
          · cases hstep
            exact hdrop
  | nodesConflict i o d n =>
      simp only [regCallStep] at hstep
      split at hstep
      · cases hstep
        exact hdrop
      · cases hstep
        exact hdrop.goOn hsound nofun
  | insertNew i o d n first =>
      obtain ⟨⟨hi, ho⟩, hfits⟩ := hsound
      have hnone : hdcdrvFastNodesConflict n (s.root i d) = none := of_decide_eq_true hok
      have hapart := fun m (hm : m ∈ (s.root i d).toList) =>
        hdcdrvFastNodesConflict_none (hinv.ordered i d) hfits hnone hm
      obtain ⟨root, hins, hperm, hord⟩ :=
        hdcdrvFastNodeInsertNew_some (hinv.ordered i d) hfits hapart
      simp only [regCallStep, hins] at hstep
      split at hstep
      · next hbal =>
          have hall : (balanced.toList).Perm (n :: s.registered o d) :=
            hbal ▸ hperm.trans ((hi ▸ hinv.exact i d).cons n)
          have hlink := hdrop.write d hi ho hall (hord.congr hbal)
            fun c hc m _ hm => List.mem_cons_of_mem n hm
          cases first
          · cases hstep
            exact hlink.goOn ⟨hi, ho⟩ nofun
          · cases hstep
            exact hlink
      · cases hstep
  | setPid i o =>
      cases hstep
      have hsame : ({ s with calls := s.calls.erase (.setPid i o) } : NodeTreeState).setInfo i o =
          { s with calls := s.calls.erase (.setPid i o) } := by
        rw [NodeTreeState.setInfo]
        congr 1
        exact Function.update_eq_self_iff.mpr hsound.1.symm
      rw [hsame]
      exact hdrop
  | eraseFind o d n =>
      simp only [regCallStep] at hstep
      split at hstep
      · next i hfind =>
          cases hstep
          refine hdrop.goOn ⟨hdcdrvFastNodeArryFindArryIdx_some hfind, hsound⟩ ?_
          rintro x hx c hc
          exact hinv.erases_ne hcall hx hc
      · cases hstep
        exact hdrop
  | nodeErase i o d n =>
      obtain ⟨hi, hn⟩ := hsound
      simp only [regCallStep] at hstep
      split at hstep
      · next hbal =>
          cases hstep
          have hall : balanced.toList.Perm ((s.registered o d).erase n) :=
            hbal ▸ (hi ▸ hinv.exact i d).erase n
          have hunlink := hdrop.write d hi (hinv.owned o d n hn).1 hall
            ((hinv.ordered i d).sublist (hbal ▸ List.erase_sublist)) ?_
          · exact hunlink.goOn trivial nofun
          · intro c hc m hcm hm
            refine (List.mem_erase_of_ne ?_).mpr hm
            rintro rfl
            exact hinv.erases_ne hcall rfl hc hcm
      · cases hstep
  | treeIsEmpty i o d =>
      simp only [regCallStep] at hstep
      split at hstep
      · cases hstep
        exact hdrop.goOn trivial nofun
      · cases hstep
        exact hdrop
  | clearPid i o =>
      cases hstep
      simp only [undisturbed, Bool.decide_and, Bool.and_eq_true, List.all_eq_true,
        decide_eq_true_eq] at hok
      exact hdrop.giveUp (fun dev => hok.1 dev (List.mem_finRange dev))
        fun c hc => hok.2 c (List.mem_of_mem_erase hc)

theorem nodeTreeStep_inv (hinv : NodeTreeInv s) (act : RegAct)
    (hok : undisturbed side s act = true) (hstep : nodeTreeStep side s act = some t) :
    NodeTreeInv t := by
  cases act with
  | insertToArry owner dev node =>
      cases hstep
      have hnew : owner ≠ .invalid ∧ node.Fits := of_decide_eq_true hok
      exact hinv.goOn hnew nofun
  | eraseFromArry owner dev node =>
      simp only [nodeTreeStep] at hstep
      split at hstep
      · next hnode =>
          cases hstep
          refine hinv.goOn hnode ?_
          rintro x hx c hc
          cases hx
          exact of_decide_eq_true (List.all_eq_true.mp hok c hc)
      · cases hstep
  | run call balanced =>
      simp only [nodeTreeStep] at hstep
      split at hstep
      · next hcall => exact regCallStep_inv hinv hcall hok hstep
      · cases hstep

/-! ## What holds -/

theorem FastNode.Before.apart {m n : FastNode} (h : m.Before n) : m.Apart n := .inl h.1

theorem NodeTreeInv.search (hinv : NodeTreeInv s) {vaAddr : UInt64} {len : UInt32}
    {Q : Prop} (hwalk : ∀ idx dev,
      (hdcdrvFastNodeArrySearch vaAddr len (s.root idx dev) = some node ↔
        node ∈ (s.root idx dev).toList ∧ Q)) :
    hdcdrvFastNodeSearchTimeoutFromArry side s owner dev vaAddr len = some node ↔
      node ∈ s.registered owner (hdcdrvGetCtrlArryUniEx side dev) ∧ Q := by
  rw [hdcdrvFastNodeSearchTimeoutFromArry]
  split
  · next hnone =>
      refine iff_of_false nofun fun ⟨hn, _⟩ => ?_
      obtain ⟨-, i, hi⟩ := hinv.owned _ _ _ hn
      exact hdcdrvFastNodeArryFindArryIdx_none.mp hnone i hi
  · next i hfind =>
      rw [hwalk, (hinv.exact i _).mem_iff, hdcdrvFastNodeArryFindArryIdx_some hfind]

theorem NodeTreeInv.ok (hinv : NodeTreeInv s) : NodeTreeOk side s where
  slot owner dev hne := by
    obtain ⟨node, hnode⟩ := List.exists_mem_of_ne_nil _ hne
    obtain ⟨howner, idx, hidx⟩ := hinv.owned owner dev node hnode
    exact ⟨idx, hidx, fun j hj => hinv.keyed j idx (hj.trans hidx.symm) (hj ▸ howner)⟩
  exact := hinv.exact
  apart idx dev := (hinv.ordered idx dev).before.imp FastNode.Before.apart
  search owner dev vaAddr len hpos hwrap node := by
    refine hinv.search fun idx dev => ?_
    have hne : len ≠ 0 := by
      rintro rfl
      exact absurd hpos (lt_irrefl 0)
    rw [hdcdrvFastNodeArrySearch, if_neg hne]
    exact hdcdrvFastNodeArryIsExist_eq_some (hinv.ordered idx dev) hpos hwrap
  start owner dev vaAddr node := by
    refine hinv.search fun idx dev => ?_
    rw [hdcdrvFastNodeArrySearch, if_pos rfl]
    exact hdcdrvFastNodeSearchNew_eq_some (hinv.ordered idx dev)

/-- Where no registration is disturbed, the ranges of a process are in its slot, apart,
and found by the search. -/
theorem nodeTree_ok
    (hs : (nodeTreeMachine side).ReachIf (fun s act => undisturbed side s act = true) s) :
    NodeTreeOk side s := by
  have hinv : NodeTreeInv s := by
    apply hs.invariant
    · rintro s rfl
      refine ⟨fun i j _ hi => absurd rfl hi, fun _ _ => List.Perm.refl _,
        fun _ _ => ⟨List.Pairwise.nil, fun n hn => absurd hn List.not_mem_nil⟩,
        fun _ _ n hn => absurd hn List.not_mem_nil, fun c hc => absurd hc List.not_mem_nil,
        List.nodup_nil⟩
    · exact fun s act t hinv hok hstep => nodeTreeStep_inv hinv act hok hstep
  exact hinv.ok

/-! ## One process with two threads -/

def emptyNodeTree : NodeTreeState := ⟨fun _ => .invalid, fun _ _ => .nil, [], fun _ _ => []⟩

def aProcess : NodeTreeInfo := ⟨1, 0⟩

/-- The second range is the end of the first. -/
def twoPages : FastNode := ⟨0x1000, 0x2000⟩
def secondPage : FastNode := ⟨0x2000, 0x1000⟩

/-- A range is registered and unregistered. -/
def registerActs : List RegAct :=
  [.insertToArry aProcess 0 twoPages,
    .run (.findSlot aProcess 0 twoPages) .nil,
    .run (.insertNew 0 aProcess 0 twoPages true) (.node .nil twoPages .nil),
    .eraseFromArry aProcess 0 twoPages,
    .run (.eraseFind aProcess 0 twoPages) .nil,
    .run (.nodeErase 0 aProcess 0 twoPages) .nil,
    .run (.treeIsEmpty 0 aProcess 0) .nil,
    .run (.clearPid 0 aProcess) .nil]

theorem nodeTree_ok_one :
    NodeTreeOk .local ((nodeTreeMachine .local).final emptyNodeTree registerActs) := by
  have hs : (nodeTreeMachine .local).ReachIf
      (fun s act => undisturbed .local s act = true)
      ((nodeTreeMachine .local).final emptyNodeTree registerActs) :=
    .final (.start rfl) (by decide +kernel) (by decide +kernel)
  exact nodeTree_ok hs

/-- The thread that takes the slot links its range without a check; between, another
thread has linked one that overlaps it. -/
def overlapActs : List RegAct :=
  [.insertToArry aProcess 0 twoPages,
    .insertToArry aProcess 0 secondPage,
    .run (.findSlot aProcess 0 twoPages) .nil,
    .run (.findSlot aProcess 0 secondPage) .nil,
    .run (.nodesConflict 0 aProcess 0 secondPage) .nil,
    .run (.insertNew 0 aProcess 0 secondPage false) (.node .nil secondPage .nil),
    .run (.setPid 0 aProcess) .nil,
    .run (.insertNew 0 aProcess 0 twoPages true)
      (.node (.node .nil twoPages .nil) secondPage .nil)]

theorem nodeTree_overlaps :
    ∃ s, (nodeTreeMachine .local).Reach s ∧ s.calls = [] ∧ ¬NodeTreeOk .local s := by
  refine ⟨(nodeTreeMachine .local).final emptyNodeTree overlapActs, ?_, ?_, ?_⟩
  · exact .final (.start rfl) (by decide +kernel)
  · decide +kernel
  · intro hok
    have happart := hok.apart 0 0
    have hroot : (((nodeTreeMachine .local).final emptyNodeTree overlapActs).root 0 0).toList =
        [twoPages, secondPage] := by decide +kernel
    rw [hroot, List.pairwise_pair] at happart
    rcases happart with h | h <;> exact absurd h (by decide)

end OpiaiKernel.Hdc
