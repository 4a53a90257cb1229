import OpiaiKernel.Trs.ChanInit

/-!
# Where the interrupts of the hardware queues go

The map of the submission queues names a channel exactly for the queues of the
live hardware channels.  The map of the completion queues does so for those
queues, but it names a channel for every other queue as well.
-/

namespace OpiaiKernel.Trs

variable {s t : TrsChanTsInst} {chan : TrsChan} {para : TrsChanPara} {env : TrsChanEnv}

/-- A hardware channel with a submission queue. -/
def TrsChan.mapsSq (chan : TrsChan) : Prop := chan.types.type = .hw ∧ chan.hasSq = true

def TrsChan.mapsCq (chan : TrsChan) : Prop := chan.types.type = .hw ∧ chan.hasCq = true

instance (chan : TrsChan) : Decidable chan.mapsSq := inferInstanceAs (Decidable (_ ∧ _))

instance (chan : TrsChan) : Decidable chan.mapsCq := inferInstanceAs (Decidable (_ ∧ _))

/-- The channel is entered in the maps. -/
def TrsChanTsInst.enter (s : TrsChanTsInst) (chan : TrsChan) : TrsChanTsInst :=
  { s with
    hwSqCtx := if chan.mapsSq then Function.update s.hwSqCtx chan.sqid chan.id else s.hwSqCtx
    hwCqCtx := if chan.mapsCq then Function.update s.hwCqCtx chan.cqid chan.id else s.hwCqCtx }

/-- The channel has what the creation was given. -/
structure TrsChan.Given (chan : TrsChan) (para : TrsChanPara) (env : TrsChanEnv) : Prop where
  id : env.id = some chan.id
  types : chan.types = para.types
  sqid : chan.hasSq = true → env.sqid = some chan.sqid
  cqid : chan.hasCq = true → env.cqid = some chan.cqid

theorem trsChanInstInitSq_cases (s : TrsChanTsInst) (chan : TrsChan) (hsq : chan.hasSq = false)
    (hcq : chan.hasCq = false) (hgiven : chan.Given para env) :
    (∃ c, trsChanInstInitSq s chan para env = (s, c, false)) ∨
    ∃ c, trsChanInstInitSq s chan para env = (s.enter c, c, true) ∧ c.Given para env ∧
      c.hasCq = false := by
  unfold trsChanInstInitSq
  split_ifs
  · refine .inr ⟨chan, ?_, hgiven, hcq⟩
    simp [TrsChanTsInst.enter, TrsChan.mapsSq, TrsChan.mapsCq, hsq, hcq]
  · unfold trsChanSqInit
    cases hid : env.sqid with
    | none => exact .inl ⟨chan, rfl⟩
    | some sqid =>
        by_cases hmem : (!para.noAllocSqcqMem && !env.sqMem) = true
        · exact .inl ⟨{ chan with sqid := sqid }, by simp only [hmem, if_true]⟩
        · refine .inr ⟨{ chan with sqid := sqid, hasSq := true }, ?_,
            ⟨hgiven.id, hgiven.types, fun _ => hid, by simp [hcq]⟩, hcq⟩
          by_cases hhw : chan.types.type = .hw <;>
            simp [hmem, hhw, TrsChanTsInst.enter, TrsChan.mapsSq, TrsChan.mapsCq, hcq]

/-- A channel without a completion queue may be given its id early. -/
theorem TrsChanTsInst.enter_cqid (hcq : chan.hasCq = false) (cqid : ℕ) :
    s.enter { chan with cqid := cqid } = s.enter chan := by
  have hnone : ¬ chan.mapsCq := by simp [TrsChan.mapsCq, hcq]
  have hnone' : ¬ ({ chan with cqid := cqid } : TrsChan).mapsCq := by simp [TrsChan.mapsCq, hcq]
  by_cases hsq : chan.mapsSq
  · have hsq' : ({ chan with cqid := cqid } : TrsChan).mapsSq := hsq
    simp only [enter, if_pos hsq, if_pos hsq', if_neg hnone, if_neg hnone']
  · have hsq' : ¬ ({ chan with cqid := cqid } : TrsChan).mapsSq := hsq
    simp only [enter, if_neg hsq, if_neg hsq', if_neg hnone, if_neg hnone']

theorem trsChanInstInitCq_cases (hcq : chan.hasCq = false) (hgiven : chan.Given para env) :
    ∃ c, c.Given para env ∧
      (trsChanInstInitCq (s.enter chan) chan para env =
          (trsChanInstUninit (s.enter c) c, c, false) ∨
        trsChanInstInitCq (s.enter chan) chan para env = (s.enter c, c, true)) := by
  unfold trsChanInstInitCq
  split_ifs
  · exact ⟨chan, hgiven, .inr rfl⟩
  · unfold trsChanCqInit
    cases hid : env.cqid with
    | none => exact ⟨chan, hgiven, .inl rfl⟩
    | some cqid =>
        have hearly : ({ chan with cqid := cqid } : TrsChan).Given para env :=
          ⟨hgiven.id, hgiven.types, hgiven.sqid, by simp [hcq]⟩
        have henter := TrsChanTsInst.enter_cqid (s := s) hcq cqid
        by_cases hbad : chan.types.type = .hw ∧ s.cqMaxId ≤ cqid
        · exact ⟨_, hearly, .inl (by rw [henter]; simp [TrsChanTsInst.enter, hbad])⟩
        by_cases hmem : (!para.noAllocSqcqMem && !env.cqMem) = true
        · exact ⟨_, hearly, .inl (by
            rw [henter]
            simp only [TrsChanTsInst.enter, hbad, hmem, if_true, if_false])⟩
        · refine ⟨{ chan with cqid := cqid, hasCq := true },
            ⟨hgiven.id, hgiven.types, hgiven.sqid, fun _ => hid⟩, .inr ?_⟩
          simp only [TrsChanTsInst.enter, hbad, hmem, if_false]
          by_cases hhw : chan.types.type = .hw <;>
            simp [hhw, TrsChan.mapsSq, TrsChan.mapsCq, hcq]

/-- What a creation comes to: nothing, a channel that is entered and taken
apart, or one that is entered and added. -/
theorem trsChanInstCreate_cases (s : TrsChanTsInst) (para : TrsChanPara) (env : TrsChanEnv) :
    trsChanInstCreate s para env = s ∨
    ∃ chan : TrsChan, chan.Given para env ∧
      (trsChanInstCreate s para env = trsChanInstUninit (s.enter chan) chan ∨
        trsChanInstCreate s para env =
          { s.enter chan with chans := chan :: (s.enter chan).chans }) := by
  unfold trsChanInstCreate
  split_ifs
  · exact .inl rfl
  cases hid : env.id with
  | none => exact .inl rfl
  | some id =>
      have hgiven : TrsChan.Given
          { id := id, types := para.types, hasSq := false, sqid := 0, hasCq := false, cqid := 0 }
          para env := ⟨hid, rfl, by simp, by simp⟩
      simp only [trsChanInstInit]
      rcases trsChanInstInitSq_cases s _ rfl rfl hgiven with ⟨c, hsq⟩ | ⟨c, hsq, hc, hcq⟩
      · exact .inl (by simp only [hsq])
      · obtain ⟨d, hd, hinit | hinit⟩ := trsChanInstInitCq_cases (s := s) hcq hc
        · exact .inr ⟨d, hd, .inl (by simp only [hsq, hinit])⟩
        · by_cases hnotice : (para.noticeTs && !env.notice) = true
          · exact .inr ⟨d, hd, .inl (by simp only [hsq, hinit, hnotice, if_true])⟩
          · exact .inr ⟨d, hd, .inr (by simp only [hsq, hinit, hnotice, Bool.false_eq_true, if_false])⟩

/-! ## The invariant -/

/-- The maps name the live hardware channels at their queues; the other
submission queues have no channel. -/
structure RouteInv (s : TrsChanTsInst) : Prop where
  ids : Keyed.Uniq TrsChan.id s.chans
  sqOwn : ∀ c ∈ s.chans, c.mapsSq → s.hwSqCtx c.sqid = c.id
  sqMap : ∀ q, s.hwSqCtx q ≠ -1 → ∃ c ∈ s.chans, c.mapsSq ∧ c.sqid = q
  cqOwn : ∀ c ∈ s.chans, c.mapsCq → s.hwCqCtx c.cqid = c.id
  cqNonneg : ∀ q, 0 ≤ s.hwCqCtx q

theorem TrsChan.ownsSq_of_maps (hwType : TrsHwType) (h : chan.mapsSq) :
    chan.ownsSq hwType chan.sqid = true := by
  obtain ⟨hhw, hsq⟩ := h
  simp only [ownsSq, hsq, trsChanGetSqType, hhw]
  cases chan.types.subType <;> simp [TrsIdType.isHw]

theorem TrsChan.ownsCq_of_maps (hwType : TrsHwType) (h : chan.mapsCq) :
    chan.ownsCq hwType chan.cqid = true := by
  obtain ⟨hhw, hcq⟩ := h
  simp only [ownsCq, hcq, trsChanGetCqType, hhw]
  cases chan.types.subType <;> simp [TrsIdType.isHw]

/-- What a creation is given does not belong to a live channel. -/
structure Unused (s : TrsChanTsInst) (chan : TrsChan) : Prop where
  id : ∀ c ∈ s.chans, c.id ≠ chan.id
  sqid : chan.mapsSq → ∀ c ∈ s.chans, c.mapsSq → c.sqid ≠ chan.sqid
  cqid : chan.mapsCq → ∀ c ∈ s.chans, c.mapsCq → c.cqid ≠ chan.cqid

theorem TrsChan.Given.unused (h : chan.Given para env) (hfresh : env.fresh s para = true) :
    Unused s chan := by
  simp only [TrsChanEnv.fresh, List.all_eq_true, Bool.and_eq_true, Bool.or_eq_true,
    Bool.not_eq_true', decide_eq_true_eq, Option.all_eq_true] at hfresh
  refine ⟨fun c hc heq => ?_, fun hmaps c hc hcmaps heq => ?_, fun hmaps c hc hcmaps heq => ?_⟩
  · exact (hfresh c hc).1.1 (heq ▸ h.id)
  · have hhw : (trsChanGetSqType s.hwType para.types).isHw = true := by
      have howns := chan.ownsSq_of_maps s.hwType hmaps
      rw [← h.types]
      simp only [TrsChan.ownsSq, Bool.and_eq_true] at howns
      exact howns.1.2
    rcases (hfresh c hc).1.2 with hnot | hnot
    · rw [hhw] at hnot
      cases hnot
    · have hno := hnot chan.sqid (h.sqid hmaps.2)
      rw [← heq, c.ownsSq_of_maps s.hwType hcmaps] at hno
      cases hno
  · have hhw : (trsChanGetCqType s.hwType para.types).isHw = true := by
      have howns := chan.ownsCq_of_maps s.hwType hmaps
      rw [← h.types]
      simp only [TrsChan.ownsCq, Bool.and_eq_true] at howns
      exact howns.1.2
    rcases (hfresh c hc).2 with hnot | hnot
    · rw [hhw] at hnot
      cases hnot
    · have hno := hnot chan.cqid (h.cqid hmaps.2)
      rw [← heq, c.ownsCq_of_maps s.hwType hcmaps] at hno
      cases hno

namespace RouteInv

theorem init (hwType : TrsHwType) (sqMaxId cqMaxId : ℕ) :
    RouteInv (chanTsInstInit hwType sqMaxId cqMaxId) where
  ids := List.nodup_nil
  sqOwn c hc := by simp [chanTsInstInit] at hc
  sqMap q hq := absurd rfl hq
  cqOwn c hc := by simp [chanTsInstInit] at hc
  cqNonneg q := Int.le_refl 0

theorem enter_cqNonneg (h : RouteInv s) (chan : TrsChan) (q : ℕ) : 0 ≤ (s.enter chan).hwCqCtx q := by
  simp only [TrsChanTsInst.enter]
  split_ifs
  · by_cases hq : q = chan.cqid
    · rw [hq, Function.update_self]
      exact Int.natCast_nonneg _
    · rw [Function.update_of_ne hq]
      exact h.cqNonneg q
  · exact h.cqNonneg q

theorem enter_sqOwn (h : RouteInv s) (hnew : Unused s chan) {c : TrsChan} (hc : c ∈ s.chans)
    (hmaps : c.mapsSq) : (s.enter chan).hwSqCtx c.sqid = c.id := by
  simp only [TrsChanTsInst.enter]
  split_ifs with hchan
  · rw [Function.update_of_ne (hnew.sqid hchan c hc hmaps)]
    exact h.sqOwn c hc hmaps
  · exact h.sqOwn c hc hmaps

theorem enter_cqOwn (h : RouteInv s) (hnew : Unused s chan) {c : TrsChan} (hc : c ∈ s.chans)
    (hmaps : c.mapsCq) : (s.enter chan).hwCqCtx c.cqid = c.id := by
  simp only [TrsChanTsInst.enter]
  split_ifs with hchan
  · rw [Function.update_of_ne (hnew.cqid hchan c hc hmaps)]
    exact h.cqOwn c hc hmaps
  · exact h.cqOwn c hc hmaps

theorem add (h : RouteInv s) (hnew : Unused s chan) :
    RouteInv { s.enter chan with chans := chan :: (s.enter chan).chans } := by
  refine ⟨h.ids.cons hnew.id, fun c hc hmaps => ?_, fun q hq => ?_, fun c hc hmaps => ?_,
    h.enter_cqNonneg chan⟩
  · rcases List.mem_cons.mp hc with rfl | hc
    · simp [TrsChanTsInst.enter, hmaps]
    · exact h.enter_sqOwn hnew hc hmaps
  · by_cases hown : chan.mapsSq ∧ q = chan.sqid
    · exact ⟨chan, List.mem_cons_self, hown.1, hown.2.symm⟩
    · have hold : (s.enter chan).hwSqCtx q = s.hwSqCtx q := by
        simp only [TrsChanTsInst.enter]
        split_ifs with hchan
        · exact Function.update_of_ne (fun heq => hown ⟨hchan, heq⟩) ..
        · rfl
      obtain ⟨c, hc, hmaps, hcq⟩ := h.sqMap q (hold ▸ hq)
      exact ⟨c, List.mem_cons_of_mem _ hc, hmaps, hcq⟩
  · rcases List.mem_cons.mp hc with rfl | hc
    · simp [TrsChanTsInst.enter, hmaps]
    · exact h.enter_cqOwn hnew hc hmaps

theorem uninit_eq (s : TrsChanTsInst) (chan : TrsChan) :
    trsChanInstUninit s chan = { s with
      hwSqCtx := if chan.mapsSq then Function.update s.hwSqCtx chan.sqid (-1) else s.hwSqCtx } := by
  unfold trsChanInstUninit trsChanSqUninit trsChanCqUninit TrsChan.mapsSq
  by_cases hsq : chan.hasSq = true <;> by_cases hhw : chan.types.type = .hw <;> simp [hsq, hhw]

/-- A channel that is entered and taken apart leaves the map of the submission
queues as it was. -/
theorem abort (h : RouteInv s) (hnew : Unused s chan) :
    RouteInv (trsChanInstUninit (s.enter chan) chan) := by
  have hsq : (trsChanInstUninit (s.enter chan) chan).hwSqCtx = s.hwSqCtx := by
    rw [uninit_eq]
    by_cases hmaps : chan.mapsSq
    · have hnone : s.hwSqCtx chan.sqid = -1 := by
        by_contra hne
        obtain ⟨c, hc, hcmaps, hcq⟩ := h.sqMap _ hne
        exact hnew.sqid hmaps c hc hcmaps hcq
      simp only [TrsChanTsInst.enter, hmaps, if_true, Function.update_idem]
      rw [← hnone, Function.update_eq_self]
    · simp only [TrsChanTsInst.enter, hmaps, if_false]
  refine ⟨?_, fun c hc hmaps => ?_, fun q hq => ?_, fun c hc hmaps => ?_, fun q => ?_⟩
  · rw [uninit_eq]
    exact h.ids
  · rw [hsq]
    rw [uninit_eq] at hc
    exact h.sqOwn c hc hmaps
  · rw [hsq] at hq
    rw [uninit_eq]
    exact h.sqMap q hq
  · rw [uninit_eq] at hc ⊢
    exact h.enter_cqOwn hnew hc hmaps
  · rw [uninit_eq]
    exact h.enter_cqNonneg chan q

theorem destroy (h : RouteInv s) (chanId : ℕ) : RouteInv (halKernelTrsChanDestroy s chanId) := by
  unfold halKernelTrsChanDestroy
  cases hget : Keyed.get TrsChan.id chanId s.chans with
  | none => exact h
  | some chan =>
      have hmem := Keyed.mem_of_get hget
      have hid := Keyed.key_of_get hget
      simp only [uninit_eq]
      have hmaps_ne {c : TrsChan} (hc : c ∈ Keyed.remove TrsChan.id chanId s.chans)
          (hcmaps : c.mapsSq) (hmaps : chan.mapsSq) : c.sqid ≠ chan.sqid := by
        intro heq
        have hc' := Keyed.mem_remove.mp hc
        have hsame := (h.sqOwn c hc'.1 hcmaps).symm.trans (heq ▸ h.sqOwn chan hmem hmaps)
        exact hc'.2 (by rw [← hid]; exact_mod_cast hsame)
      refine ⟨h.ids.unlink, fun c hc hcmaps => ?_, fun q hq => ?_,
        fun c hc hcmaps => h.cqOwn c (Keyed.mem_remove.mp hc).1 hcmaps, h.cqNonneg⟩
      · dsimp only
        split_ifs with hmaps
        · rw [Function.update_of_ne (hmaps_ne hc hcmaps hmaps)]
          exact h.sqOwn c (Keyed.mem_remove.mp hc).1 hcmaps
        · exact h.sqOwn c (Keyed.mem_remove.mp hc).1 hcmaps
      · have hold : s.hwSqCtx q ≠ -1 ∧ (chan.mapsSq → q ≠ chan.sqid) := by
          by_cases hmaps : chan.mapsSq
          · simp only [hmaps, if_true] at hq
            by_cases heq : q = chan.sqid
            · simp [heq] at hq
            · rw [Function.update_of_ne heq] at hq
              exact ⟨hq, fun _ => heq⟩
          · simp only [hmaps, if_false] at hq
            exact ⟨hq, fun hmaps' => absurd hmaps' hmaps⟩
        obtain ⟨c, hc, hcmaps, rfl⟩ := h.sqMap q hold.1
        refine ⟨c, Keyed.mem_remove.mpr ⟨hc, fun heq => ?_⟩, hcmaps, rfl⟩
        -- the channel that goes had no other queue
        have hsame : c = chan := h.ids.eq_of_key hc hmem (heq.trans hid.symm)
        subst hsame
        exact hold.2 hcmaps rfl

theorem step (h : RouteInv s) {a : ChanOp} (hstep : chanStep s a = some t) : RouteInv t := by
  cases a with
  | create para env =>
      simp only [chanStep, Option.ite_none_right_eq_some, Option.some.injEq] at hstep
      obtain ⟨hfresh, rfl⟩ := hstep
      rcases trsChanInstCreate_cases s para env with heq | ⟨chan, hgiven, heq | heq⟩
      · rwa [heq]
      · rw [heq]
        exact h.abort (hgiven.unused hfresh)
      · rw [heq]
        exact h.add (hgiven.unused hfresh)
  | destroy chanId =>
      obtain rfl := Option.some.inj hstep
      exact h.destroy chanId

end RouteInv

/-- The map of the submission queues names no channel for the queue, or the
live channel that owns it. -/
def SqRouted (s : TrsChanTsInst) (q : ℕ) : Prop :=
  trsChanSqToChanId s q = -1 ∨
    ∃ c ∈ s.chans, (c.id : ℤ) = trsChanSqToChanId s q ∧ c.ownsSq s.hwType q = true

def CqRouted (s : TrsChanTsInst) (q : ℕ) : Prop :=
  trsChanCqToChanId s q = -1 ∨
    ∃ c ∈ s.chans, (c.id : ℤ) = trsChanCqToChanId s q ∧ c.ownsCq s.hwType q = true

instance (s : TrsChanTsInst) (q : ℕ) : Decidable (CqRouted s q) :=
  inferInstanceAs (Decidable (_ ∨ _))

/-- Both maps are right for every queue that they have, and an interrupt is
dispatched on the owner of the queue. -/
structure QueuesRouted (s : TrsChanTsInst) : Prop where
  sq : ∀ q < s.sqMaxId, SqRouted s q
  cq : ∀ q < s.cqMaxId, CqRouted s q
  irq : ∀ cqids, ∀ p ∈ trsChanIrqProcCqs s cqids, p.2.ownsCq s.hwType p.1 = true

/-- Every completion queue belongs to a live hardware channel. -/
def CqsOwned (s : TrsChanTsInst) : Prop :=
  ∀ q < s.cqMaxId, ∃ c ∈ s.chans, c.mapsCq ∧ c.cqid = q

namespace RouteInv

theorem sq_routed (h : RouteInv s) (q : ℕ) : SqRouted s q := by
  unfold SqRouted trsChanSqToChanId
  split_ifs
  · by_cases hnone : s.hwSqCtx q = -1
    · exact .inl hnone
    · obtain ⟨c, hc, hmaps, rfl⟩ := h.sqMap q hnone
      exact .inr ⟨c, hc, (h.sqOwn c hc hmaps).symm, c.ownsSq_of_maps _ hmaps⟩
  · exact .inl rfl

theorem cq_routed (h : RouteInv s) {c : TrsChan} (hc : c ∈ s.chans) (hmaps : c.mapsCq)
    (hlt : c.cqid < s.cqMaxId) : CqRouted s c.cqid := by
  unfold CqRouted trsChanCqToChanId
  rw [if_pos hlt]
  exact .inr ⟨c, hc, (h.cqOwn c hc hmaps).symm, c.ownsCq_of_maps _ hmaps⟩

/-- An interrupt goes where the map says. -/
theorem irq_owner (h : RouteInv s) (hcq : ∀ q < s.cqMaxId, CqRouted s q) (cqids : List ℕ)
    {p : ℕ × TrsChan} (hp : p ∈ trsChanIrqProcCqs s cqids) :
    p.2.ownsCq s.hwType p.1 = true := by
  obtain ⟨q, -, hq⟩ := List.mem_filterMap.mp hp
  split_ifs at hq
  cases hchan : trsChanCqToChanId s q with
  | negSucc n => simp [hchan] at hq
  | ofNat chanId =>
      simp only [hchan, Option.map_eq_some_iff] at hq
      obtain ⟨chan, hget, rfl⟩ := hq
      have hlt : q < s.cqMaxId := by
        by_contra hge
        rw [trsChanCqToChanId, if_neg hge] at hchan
        cases hchan
      rcases hcq q hlt with hnone | ⟨c, hc, hid, howns⟩
      · rw [hchan] at hnone
        cases hnone
      · -- the channel with this id is the owner
        rw [hchan] at hid
        have hkey : c.id = chan.id := by
          rw [Keyed.key_of_get hget]
          exact Int.ofNat.inj hid
        rwa [← h.ids.eq_of_key hc (Keyed.mem_of_get hget) hkey]

/-- The entry of a completion queue is never the one of no channel. -/
theorem owner_of_routed (h : RouteInv s) {q : ℕ} (hlt : q < s.cqMaxId) (hq : CqRouted s q) :
    ∃ c ∈ s.chans, c.ownsCq s.hwType q = true := by
  unfold CqRouted trsChanCqToChanId at hq
  rw [if_pos hlt] at hq
  rcases hq with hnone | ⟨c, hc, -, howns⟩
  · have hpos := h.cqNonneg q
    omega
  · exact ⟨c, hc, howns⟩

end RouteInv

/-- On a STARS instance the other channels have queues of their own. -/
theorem TrsChan.mapsCq_of_owns {q : ℕ} (h : chan.ownsCq .stars q = true) :
    chan.mapsCq ∧ chan.cqid = q := by
  simp only [ownsCq, Bool.and_eq_true, decide_eq_true_eq] at h
  obtain ⟨⟨hcq, hhw⟩, rfl⟩ := h
  refine ⟨⟨?_, hcq⟩, rfl⟩
  cases htype : chan.types.type with
  | hw => rfl
  | sw => simp [trsChanGetCqType, htype, TrsIdType.isHw] at hhw
  | maint => simp [trsChanGetCqType, htype, TrsIdType.isHw] at hhw
  | taskSched => simp [trsChanGetCqType, htype, TrsIdType.isHw] at hhw

/-- In every reachable state the submission queues are routed, and all queues
are while every completion queue belongs to a live hardware channel; a
completion queue that nobody owns is not, nor is one of a STARS instance that
no hardware channel owns. -/
theorem hw_queues_routed (h : chanMachine.Reach s) :
    (∀ q < s.sqMaxId, SqRouted s q) ∧ (CqsOwned s → QueuesRouted s) ∧
      (∀ q < s.cqMaxId, CqRouted s q → ∃ c ∈ s.chans, c.ownsCq s.hwType q = true) ∧
      (s.hwType = .stars → (QueuesRouted s ↔ CqsOwned s)) := by
  have hinv : RouteInv s := by
    refine h.invariant (fun s hs => ?_) fun s a t hs _ hstep => hs.step hstep
    obtain ⟨hwType, sqMaxId, cqMaxId, rfl⟩ := hs
    exact .init hwType sqMaxId cqMaxId
  have howned : CqsOwned s → QueuesRouted s := by
    intro howned
    have hcq (q : ℕ) (hq : q < s.cqMaxId) : CqRouted s q := by
      obtain ⟨c, hc, hmaps, rfl⟩ := howned q hq
      exact hinv.cq_routed hc hmaps hq
    exact ⟨fun q _ => hinv.sq_routed q, hcq, fun cqids p hp => hinv.irq_owner hcq cqids hp⟩
  refine ⟨fun q _ => hinv.sq_routed q, howned, fun q hq => hinv.owner_of_routed hq,
    fun hstars => ⟨fun hrouted q hq => ?_, howned⟩⟩
  obtain ⟨c, hc, howns⟩ := hinv.owner_of_routed hq (hrouted.cq q hq)
  rw [hstars] at howns
  exact ⟨c, hc, c.mapsCq_of_owns howns⟩

/-- One hardware channel, with completion queue 0. -/
def oneChannelRun : List ChanOp :=
  [.create
    { types := ⟨.hw, .rts⟩, allocSq := true, allocCq := true, noAllocSqcqMem := false
      noticeTs := true }
    { mem := true, id := some 0, sqid := some 0, sqMem := true, cqid := some 0, cqMem := true
      notice := true }]

/-- The queue that nobody owns is mapped to it. -/
theorem unowned_queue_is_mapped : ¬ ∀ s, chanMachine.Reach s → QueuesRouted s := by
  intro hall
  have hrun : chanMachine.Reach
      (chanMachine.final (chanTsInstInit .stars 2 2) oneChannelRun) :=
    Machine.Reach.final (.start ⟨.stars, 2, 2, rfl⟩) (by decide +kernel)
  have hcq := (hall _ hrun).cq 1
  revert hcq
  decide +kernel

/-- With no other queue, all is well. -/
theorem hw_queues_routed_one :
    QueuesRouted (chanMachine.final (chanTsInstInit .stars 2 1) oneChannelRun) :=
  (hw_queues_routed (Machine.Reach.final (.start ⟨.stars, 2, 1, rfl⟩) (by decide +kernel))).2.1
    (by unfold CqsOwned; decide +kernel)

end OpiaiKernel.Trs
