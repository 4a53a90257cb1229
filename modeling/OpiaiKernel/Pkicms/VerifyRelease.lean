import OpiaiKernel.Pkicms.VerifyCtx
import Mathlib.Data.List.ReduceOption

/-!
# What a verification context owns

A context that was created owns itself, its digest context, the integers of the
key and the objects of the digest.  As long as no call frees the digest context
early, a destroy leaves the objects of the digest, which only a final frees.  A
digest context that was freed early is freed again by the destroy.
-/

namespace OpiaiKernel.Pkicms

open Heap

variable {h h' : Heap} {l : List ℕ} {s t : VrfState} {pvrf pmd : ℕ} {op : ShashSha256}

/-! ## The digest -/

namespace ShashSha256

def objects (sha256 : ShashSha256) : List ℕ := sha256.desc.toList ++ sha256.shash.toList

/-- The transform comes with the descriptor. -/
def Paired (sha256 : ShashSha256) : Prop := sha256.shash.isSome = sha256.desc.isSome

theorem objects_eq_nil (h : op.Paired) (hdesc : op.desc = none) : op.objects = [] := by
  have hshash : op.shash = none := by simpa [Paired, hdesc] using h
  simp [objects, hdesc, hshash]

end ShashSha256

theorem freeShashSha256_owns (op : ShashSha256) (ho : h.Owns (op.objects ++ l)) :
    (freeShashSha256 h op).1.Owns l := by
  obtain ⟨shash, desc⟩ := op
  cases shash with
  | none =>
      cases desc with
      | none => exact ho
      | some desc => exact (ho.use List.mem_cons_self).free
  | some shash =>
      cases desc with
      | none => exact ho.free
      | some desc =>
          have hfree : (h.free shash).Owns (desc :: l) := (ho.congr (List.Perm.swap _ _ _)).free
          exact (hfree.use List.mem_cons_self).free

def Sha256InitAnswers.ok (ans : Sha256InitAnswers) : Bool :=
  ans.allocShash && ans.kmalloc && ans.shashInit

theorem pkicmsSha256Init_owns (ho : h.Owns l) (ans : Sha256InitAnswers) :
    let r := pkicmsSha256Init h ans
    r.1.Owns (r.2.1.objects ++ l) ∧ r.2.1.Paired ∧ r.2.1.desc.isSome = ans.ok ∧ r.2.2 = ans.ok := by
  obtain ⟨allocShash, kmalloc, shashInit⟩ := ans
  have hshash := ho.alloc
  have hdesc := hshash.alloc
  unfold pkicmsSha256Init
  cases allocShash
  · exact ⟨ho, rfl, rfl, rfl⟩
  · cases kmalloc
    · exact ⟨freeShashSha256_owns ⟨some _, none⟩ hshash, rfl, rfl, rfl⟩
    · have huse := hdesc.use List.mem_cons_self
      cases shashInit
      · exact ⟨freeShashSha256_owns ⟨some _, some _⟩ huse, rfl, rfl, rfl⟩
      · exact ⟨huse, rfl, rfl, rfl⟩

theorem pkicmsSha256Update_owns (ho : h.Owns (op.objects ++ l)) (dataNull ok : Bool) :
    let r := pkicmsSha256Update h op dataNull ok
    r.1.Owns (r.2.1.objects ++ l) ∧ (op.Paired → r.2.1.Paired) ∧
      (dataNull = false → ok = true → op.desc.isSome = true → r.2 = (op, true)) := by
  obtain ⟨shash, desc⟩ := op
  unfold pkicmsSha256Update
  cases desc with
  | none => exact ⟨ho, id, by simp⟩
  | some desc =>
      have huse : (h.use desc).Owns _ := ho.use List.mem_cons_self
      cases dataNull
      · cases ok
        · exact ⟨freeShashSha256_owns ⟨shash, some desc⟩ huse, fun _ => rfl, by simp⟩
        · exact ⟨huse, id, fun _ _ _ => rfl⟩
      · exact ⟨ho, id, by simp⟩

theorem pkicmsSha256Final_owns (ho : h.Owns (op.objects ++ l)) (hpaired : op.Paired) (ok : Bool) :
    let r := pkicmsSha256Final h op ok
    r.1.Owns l ∧ r.2.1 = { shash := none, desc := none } := by
  unfold pkicmsSha256Final
  cases hdesc : op.desc with
  | none =>
      have hshash : op.shash = none := by simpa [ShashSha256.Paired, hdesc] using hpaired
      rw [ShashSha256.objects_eq_nil hpaired hdesc] at ho
      exact ⟨ho, by cases op; simp_all⟩
  | some desc =>
      have hmem : desc ∈ op.objects ++ l := by simp [ShashSha256.objects, hdesc]
      exact ⟨freeShashSha256_owns op (ho.use hmem), rfl⟩

theorem pkicmsSha256String_owns (ho : h.Owns l) (ans : Sha256StringAnswers) :
    (pkicmsSha256String h ans).1.Owns l := by
  obtain ⟨hinit, hpaired, hdesc, hret⟩ := pkicmsSha256Init_owns ho ans.init
  unfold pkicmsSha256String
  revert hinit hpaired hdesc hret
  rcases pkicmsSha256Init h ans.init with ⟨h₁, op₁, r₁⟩
  intro hinit hpaired hdesc hret
  cases r₁
  · have hnone : op₁.desc = none := by
      have hsome : op₁.desc.isSome = false := hdesc.trans hret.symm
      simpa using hsome
    rw [show l = op₁.objects ++ l by rw [ShashSha256.objects_eq_nil hpaired hnone]; rfl]
    exact hinit
  · obtain ⟨hupdate, hpaired', -⟩ := pkicmsSha256Update_owns hinit false ans.update
    dsimp only
    revert hupdate hpaired'
    rcases pkicmsSha256Update h₁ op₁ false ans.update with ⟨h₂, op₂, r₂⟩
    intro hupdate hpaired'
    have hfinal := pkicmsSha256Final_owns hupdate (hpaired' hpaired) ans.final
    cases r₂ <;> exact hfinal.1

theorem pkicmsSha256Strings_owns (ho : h.Owns l) (digests : List Sha256StringAnswers) :
    (pkicmsSha256Strings h digests).1.Owns l := by
  induction digests generalizing h with
  | nil => exact ho
  | cons ans rest ih =>
      have hstring := pkicmsSha256String_owns ho ans
      unfold pkicmsSha256Strings
      revert hstring
      rcases pkicmsSha256String h ans with ⟨h₁, r⟩
      intro hstring
      cases r
      · exact hstring
      · exact ih hstring

/-! ## The context -/

def TaCryptoVrf.keys (vrf : TaCryptoVrf) : List ℕ := vrf.ekey.toList ++ vrf.nkey.toList

/-- A context that was created, and whose digest context was not freed. -/
structure VrfOwns (s : VrfState) (pvrf pmd : ℕ) : Prop where
  vrfCtx : s.vrfCtx = some pvrf
  mdCtx : s.vrf.mdCtx = some pmd
  owns : s.heap.Owns (s.md.op.objects ++ pmd :: pvrf :: s.vrf.keys)
  paired : s.md.op.Paired
  algo : s.md.op.desc.isSome = true → s.md.hashAlgo = CMSCBB_HASH_SHA256

namespace VrfOwns

/-- A call looks into one of the objects. -/
theorem useVrf (h : VrfOwns s pvrf pmd) : s.heap.use pvrf = s.heap := h.owns.use_eq (by simp)

theorem useMd (h : VrfOwns s pvrf pmd) : s.heap.use pmd = s.heap := h.owns.use_eq (by simp)

theorem setHeap (h : VrfOwns s pvrf pmd)
    (ho : h'.Owns (s.md.op.objects ++ pmd :: pvrf :: s.vrf.keys)) :
    VrfOwns { s with heap := h' } pvrf pmd :=
  ⟨h.vrfCtx, h.mdCtx, ho, h.paired, h.algo⟩

end VrfOwns

theorem create_owns {args : CreateArgs} (hcreates : args.creates = true) :
    let s := (cmscbbCryptoVerifyCreateCtx vrfInit args).1
    ∃ pvrf pmd, VrfOwns s pvrf pmd ∧ s.vrf.keys = [] ∧ s.md.op = { shash := none, desc := none } := by
  obtain ⟨ctxNull, mallocVrf, mallocMd⟩ := args
  simp only [CreateArgs.creates, Bool.and_eq_true, Bool.not_eq_true'] at hcreates
  obtain ⟨⟨rfl, rfl⟩, rfl⟩ := hcreates
  exact ⟨_, _, ⟨rfl, rfl, empty_owns.alloc.alloc, rfl, fun hnone => by cases hnone⟩, rfl, rfl⟩

theorem create_fails {args : CreateArgs} (hcreates : args.creates = false) :
    let s := (cmscbbCryptoVerifyCreateCtx vrfInit args).1
    s.vrfCtx = none ∧ s.heap.Owns [] := by
  obtain ⟨ctxNull, mallocVrf, mallocMd⟩ := args
  unfold cmscbbCryptoVerifyCreateCtx
  cases ctxNull
  · cases mallocVrf
    · exact ⟨rfl, empty_owns⟩
    · cases mallocMd
      · exact ⟨rfl, (empty_owns.alloc.use List.mem_cons_self).free⟩
      · simp [CreateArgs.creates] at hcreates
  · exact ⟨rfl, empty_owns⟩

/-- The digest of a new context is started, or not. -/
theorem mdInit_owns (h : VrfOwns s pvrf pmd) (hop : s.md.op = { shash := none, desc := none })
    (hashId : ℕ) (ans : Sha256InitAnswers) :
    let r := cmscbbMdInit s hashId ans
    VrfOwns r.1 pvrf pmd ∧ r.1.vrf = s.vrf ∧
      r.1.md.op.desc.isSome = (decide (hashId = CMSCBB_HASH_SHA256) && ans.ok) ∧
      ((∃ e, r.2 = .error e) ∨ r.2 = .ok () ∧ r.1.md.op.desc.isSome = true) := by
  have howns := h.owns
  rw [hop] at howns
  unfold cmscbbMdInit
  rw [h.mdCtx]
  dsimp only
  rw [h.useMd]
  by_cases halgo : hashId = CMSCBB_HASH_SHA256
  · rw [if_pos halgo]
    obtain ⟨hinit, hpaired, hdesc, hret⟩ := pkicmsSha256Init_owns howns ans
    refine ⟨⟨h.vrfCtx, h.mdCtx, hinit, hpaired, fun _ => halgo⟩, rfl, ?_, ?_⟩
    · simpa [halgo] using hdesc
    · dsimp only at hret hdesc ⊢
      rw [hret, hdesc]
      cases ans.ok
      · exact .inl ⟨_, rfl⟩
      · exact .inr ⟨rfl, rfl⟩
  · rw [if_neg halgo]
    refine ⟨⟨h.vrfCtx, h.mdCtx, h.owns, h.paired, ?_⟩, rfl, ?_, .inl ⟨_, rfl⟩⟩
    · simp [hop]
    · simp [hop, halgo]

theorem init_owns (h : VrfOwns s pvrf pmd) (hkeys : s.vrf.keys = [])
    (hop : s.md.op = { shash := none, desc := none }) (args : InitArgs) :
    let t := (cmscbbCryptoVerifyInit s args).1
    VrfOwns t pvrf pmd ∧ t.md.op.desc.isSome = args.startsHash := by
  have hstarts : args.startsHash =
      (args.valid && (decide (args.hashId = CMSCBB_HASH_SHA256) && args.sha256.ok)) := by
    simp [InitArgs.startsHash, Sha256InitAnswers.ok, Bool.and_assoc]
  rw [hstarts]
  unfold cmscbbCryptoVerifyInit
  split
  · next hnone => simp [h.vrfCtx] at hnone
  · next p hp =>
      obtain rfl : pvrf = p := Option.some.inj (h.vrfCtx.symm.trans hp)
      cases hvalid : args.valid
      · exact ⟨h, by simp [hop]⟩
      · rw [h.useVrf, if_neg (by simp), Bool.true_and]
        obtain ⟨hmd, hvrf, hdesc, hret⟩ := mdInit_owns h hop args.hashId args.sha256
        revert hmd hvrf hdesc hret
        rcases cmscbbMdInit s args.hashId args.sha256 with ⟨t, ret⟩
        intro hmd hvrf hdesc hret
        dsimp only at hmd hvrf hdesc hret
        have hkeys' : t.vrf.keys = [] := by rw [hvrf, hkeys]
        obtain ⟨hekey, hnkey⟩ : t.vrf.ekey = none ∧ t.vrf.nkey = none := by
          simpa [TaCryptoVrf.keys] using hkeys'
        have howns := hmd.owns
        rw [hkeys'] at howns
        cases ret with
        | error e => exact ⟨hmd, hdesc⟩
        | ok _ =>
            dsimp only
            cases args.readE
            · rw [if_pos rfl, hmd.useVrf]
              refine ⟨⟨hmd.vrfCtx, hmd.mdCtx, ?_, hmd.paired, hmd.algo⟩, hdesc⟩
              simpa [TaCryptoVrf.keys, hnkey] using howns
            · have huse := howns.alloc.use (p := pvrf) (by simp)
              rw [if_neg (by simp)]
              cases args.readN
              · exact ⟨⟨hmd.vrfCtx, hmd.mdCtx, huse.free, hmd.paired, hmd.algo⟩, hdesc⟩
              · rw [if_neg (by simp)]
                refine ⟨⟨hmd.vrfCtx, hmd.mdCtx, ?_, hmd.paired, hmd.algo⟩, hdesc⟩
                refine huse.alloc.congr (List.perm_iff_count.mpr fun p => ?_)
                simp only [TaCryptoVrf.keys, Option.toList_some, List.count_append, List.count_cons,
                  List.count_nil, List.singleton_append]
                omega

/-! ## Updates -/

theorem update_owns (h : VrfOwns s pvrf pmd) {args : UpdateArgs}
    (hstarted : s.md.op.desc.isSome = true) (hfeeds : args.feedsHash = true) :
    let t := (cmscbbCryptoVerifyUpdate s args).1
    VrfOwns t pvrf pmd ∧ t.md.op.desc.isSome = true := by
  obtain ⟨dataNull, len, shashUpdate⟩ := args
  simp only [UpdateArgs.feedsHash, Bool.and_eq_true, Bool.not_eq_true', decide_eq_true_eq] at hfeeds
  obtain ⟨⟨rfl, hlen⟩, rfl⟩ := hfeeds
  obtain ⟨hupdate, hpaired, hret⟩ := pkicmsSha256Update_owns h.owns false true
  have hret := hret rfl rfl hstarted
  rw [hret] at hupdate
  unfold cmscbbCryptoVerifyUpdate
  split
  · next hnone => simp [h.vrfCtx] at hnone
  · next p hp =>
      obtain rfl : pvrf = p := Option.some.inj (h.vrfCtx.symm.trans hp)
      rw [h.useVrf]
      dsimp only
      split
      · next hnone => simp [h.mdCtx] at hnone
      · next q hq =>
          obtain rfl : pmd = q := Option.some.inj (h.mdCtx.symm.trans hq)
          simp only [cmscbbMdUpdate, h.useMd, h.algo hstarted, hlen, hret, Bool.false_eq_true,
            false_and, and_false, or_self, if_true, if_false]
          exact ⟨⟨h.vrfCtx, h.mdCtx, hupdate, h.paired, fun _ => rfl⟩, hstarted⟩

/-- What later calls cannot undo: the digest context was freed, and its context
still refers to it. -/
structure Doomed (s : VrfState) (pmd : ℕ) : Prop where
  vrfCtx : s.vrfCtx.isSome = true
  mdCtx : s.vrf.mdCtx = some pmd
  freed : pmd ∈ s.heap.frees

/-- The pointers stay, and what is freed stays freed. -/
structure Keeps (s t : VrfState) : Prop where
  vrfCtx : t.vrfCtx = s.vrfCtx
  vrf : t.vrf = s.vrf
  grows : Grows s.heap t.heap

theorem Keeps.doomed (h : Keeps s t) (hd : Doomed s pmd) : Doomed t pmd :=
  ⟨h.vrfCtx ▸ hd.vrfCtx, h.vrf ▸ hd.mdCtx, h.grows.frees hd.freed⟩

theorem freeShashSha256_grows (h : Heap) (op : ShashSha256) :
    Grows h (freeShashSha256 h op).1 := by
  obtain ⟨shash, desc⟩ := op
  cases shash <;> cases desc
  · exact .refl h
  · exact (Grows.use _ _).trans (Grows.free _ _)
  · exact Grows.free _ _
  · exact (Grows.free _ _).trans ((Grows.use _ _).trans (Grows.free _ _))

theorem pkicmsSha256Update_grows (h : Heap) (op : ShashSha256) (dataNull ok : Bool) :
    Grows h (pkicmsSha256Update h op dataNull ok).1 := by
  unfold pkicmsSha256Update
  split
  · exact .refl h
  · cases dataNull
    · cases ok
      · exact (Grows.use _ _).trans (freeShashSha256_grows _ op)
      · exact Grows.use _ _
    · exact .refl h

theorem cmscbbFree_grows (h : Heap) (p : Option ℕ) : Grows h (cmscbbFree h p) := by
  cases p with
  | none => exact .refl h
  | some p => exact (Grows.use _ _).trans (Grows.free _ _)

theorem mdUpdate_keeps (s : VrfState) (pmd : ℕ) (args : UpdateArgs) :
    Keeps s (cmscbbMdUpdate s pmd args).1 := by
  unfold cmscbbMdUpdate
  dsimp only
  split_ifs
  · exact ⟨rfl, rfl, .refl _⟩
  all_goals first
    | exact ⟨rfl, rfl, (Grows.use _ _).trans (pkicmsSha256Update_grows _ _ _ _)⟩
    | exact ⟨rfl, rfl, Grows.use _ _⟩

theorem update_keeps (s : VrfState) (args : UpdateArgs) :
    Keeps s (cmscbbCryptoVerifyUpdate s args).1 := by
  unfold cmscbbCryptoVerifyUpdate
  split
  · exact ⟨rfl, rfl, .refl _⟩
  · next pvrf _ =>
      have huse : Keeps s { s with heap := s.heap.use pvrf } := ⟨rfl, rfl, Grows.use _ _⟩
      dsimp only
      split
      · exact huse
      · next pmd _ =>
          split_ifs
          · exact ⟨rfl, rfl, huse.grows.trans (cmscbbFree_grows (s.heap.use pvrf) (some pmd))⟩
          · have hmd := mdUpdate_keeps { s with heap := s.heap.use pvrf } pmd args
            revert hmd
            rcases cmscbbMdUpdate { s with heap := s.heap.use pvrf } pmd args with ⟨t, ret⟩
            intro hmd
            cases ret with
            | error e =>
                exact ⟨hmd.vrfCtx, hmd.vrf,
                  (huse.grows.trans hmd.grows).trans (cmscbbFree_grows t.heap (some pmd))⟩
            | ok _ => exact ⟨hmd.vrfCtx, hmd.vrf, huse.grows.trans hmd.grows⟩

theorem pkicmsSha256Update_ok {dataNull ok : Bool}
    (hret : (pkicmsSha256Update h op dataNull ok).2.2 = true) :
    op.desc.isSome = true ∧ dataNull = false ∧ ok = true := by
  unfold pkicmsSha256Update at hret
  split at hret
  · cases hret
  · next desc hdesc =>
      cases dataNull
      · cases ok
        · cases hret
        · exact ⟨by simp [hdesc], rfl, rfl⟩
      · cases hret

theorem mdUpdate_ok (s : VrfState) (pmd : ℕ) (args : UpdateArgs)
    (hret : (cmscbbMdUpdate s pmd args).2 = .ok ()) :
    s.md.op.desc.isSome = true ∧ args.feedsHash = true := by
  unfold cmscbbMdUpdate at hret
  dsimp only at hret
  split_ifs at hret with hargs halgo hok
  obtain ⟨hdesc, hnull, hupdate⟩ := pkicmsSha256Update_ok hok
  have hlen : args.len ≠ 0 := fun hzero => hargs (.inr ⟨hnull, hzero⟩)
  exact ⟨hdesc, by simp [UpdateArgs.feedsHash, hnull, hlen, hupdate]⟩

theorem mem_cmscbbFree (h : Heap) (p : ℕ) : p ∈ (cmscbbFree h (some p)).frees :=
  List.mem_cons_self

/-- An update that does not feed the digest frees the digest context. -/
theorem update_dooms (h : VrfOwns s pvrf pmd) {args : UpdateArgs}
    (hbad : ¬ (s.md.op.desc.isSome = true ∧ args.feedsHash = true)) :
    Doomed (cmscbbCryptoVerifyUpdate s args).1 pmd := by
  have hkeeps := update_keeps s args
  refine ⟨by rw [hkeeps.vrfCtx, h.vrfCtx]; rfl, by rw [hkeeps.vrf, h.mdCtx], ?_⟩
  unfold cmscbbCryptoVerifyUpdate
  split
  · next hnone => simp [h.vrfCtx] at hnone
  · next p hp =>
      dsimp only
      split
      · next hnone => simp [h.mdCtx] at hnone
      · next q hq =>
          obtain rfl : pmd = q := Option.some.inj (h.mdCtx.symm.trans hq)
          split_ifs
          · exact mem_cmscbbFree (s.heap.use p) pmd
          · have hret := mdUpdate_ok { s with heap := s.heap.use p } pmd args
            revert hret
            rcases cmscbbMdUpdate { s with heap := s.heap.use p } pmd args with ⟨t, ret⟩
            intro hret
            cases ret with
            | error e => exact mem_cmscbbFree t.heap pmd
            | ok _ => exact absurd (hret rfl) hbad

/-- The updates of a session either all feed the digest, or doom it. -/
theorem updates_owns (h : VrfOwns s pvrf pmd) {updates : List UpdateArgs}
    (hgood : ∀ args ∈ updates, s.md.op.desc.isSome = true ∧ args.feedsHash = true) :
    VrfOwns (runUpdates s updates) pvrf pmd ∧
      (runUpdates s updates).md.op.desc.isSome = s.md.op.desc.isSome := by
  induction updates generalizing s with
  | nil => exact ⟨h, rfl⟩
  | cons args updates ih =>
      obtain ⟨hstarted, hfeeds⟩ := hgood args List.mem_cons_self
      obtain ⟨hnext, hsome⟩ := update_owns h hstarted hfeeds
      have hrest := ih hnext fun a ha => ⟨hsome, (hgood a (List.mem_cons_of_mem _ ha)).2⟩
      exact ⟨hrest.1, hrest.2.trans (hsome.trans hstarted.symm)⟩

theorem runUpdates_keeps (s : VrfState) (updates : List UpdateArgs) :
    Keeps s (runUpdates s updates) := by
  induction updates generalizing s with
  | nil => exact ⟨rfl, rfl, .refl _⟩
  | cons args updates ih =>
      have hstep := update_keeps s args
      have hrest := ih (cmscbbCryptoVerifyUpdate s args).1
      exact ⟨hrest.vrfCtx.trans hstep.vrfCtx, hrest.vrf.trans hstep.vrf,
        hstep.grows.trans hrest.grows⟩

theorem updates_doom (h : VrfOwns s pvrf pmd) {updates : List UpdateArgs}
    (hbad : ¬ ∀ args ∈ updates, s.md.op.desc.isSome = true ∧ args.feedsHash = true) :
    Doomed (runUpdates s updates) pmd := by
  induction updates generalizing s with
  | nil => simp at hbad
  | cons args updates ih =>
      by_cases hgood : s.md.op.desc.isSome = true ∧ args.feedsHash = true
      · obtain ⟨hnext, hsome⟩ := update_owns h hgood.1 hgood.2
        refine ih hnext fun hrest => hbad fun a ha => ?_
        rcases List.mem_cons.mp ha with rfl | ha
        · exact hgood
        · exact ⟨hgood.1, (hrest a ha).2⟩
      · exact (runUpdates_keeps _ updates).doomed (update_dooms h hgood)

/-! ## The final and the destroy -/

theorem useAll_eq (ho : h.Owns l) (ps : List (Option ℕ)) (hps : ∀ p ∈ ps.reduceOption, p ∈ l) :
    useAll h ps = h := by
  induction ps with
  | nil => rfl
  | cons p ps ih =>
      cases p with
      | none => exact ih hps
      | some p =>
          rw [List.reduceOption_cons_of_some] at hps
          change useAll (h.use p) ps = h
          rw [ho.use_eq (hps p List.mem_cons_self)]
          exact ih fun q hq => hps q (List.mem_cons_of_mem _ hq)

theorem rsaVerify_owns {buffer : ℕ} (ho : h.Owns l) (hmem : buffer ∈ l) (args : FinalArgs) :
    (rsaVerify h args buffer).1.Owns l := by
  unfold rsaVerify
  dsimp only
  rw [ho.use_eq hmem]
  split_ifs
  · exact pkicmsSha256Strings_owns ho args.digests
  · exact ho

theorem verifyRsa_owns (h : VrfOwns s pvrf pmd) (args : FinalArgs) :
    VrfOwns (cmscbbVerifyRsa s pmd args).1 pvrf pmd ∧
      (cmscbbVerifyRsa s pmd args).1.md = s.md := by
  have hsig := h.owns.alloc
  have hdec := hsig.alloc
  unfold cmscbbVerifyRsa
  cases args.readSig
  · exact ⟨h, rfl⟩
  · dsimp only
    rw [if_neg (by simp)]
    cases args.allocDec
    · exact ⟨h.setHeap hsig.free, rfl⟩
    · rw [if_neg (by simp), useAll_eq hdec _ ?_]
      · have hswap := hdec.congr (List.Perm.swap _ _ _)
        cases args.powm
        · exact ⟨h.setHeap hswap.free.free, rfl⟩
        · rw [if_neg (by simp), hdec.use_eq List.mem_cons_self]
          cases args.buffer
          · exact ⟨h.setHeap hswap.free.free, rfl⟩
          · rw [if_neg (by simp)]
            have hbuffer := hdec.alloc
            -- the signature and its power are freed before the buffer is read
            have hfree := (hbuffer.congr ((List.Perm.swap _ _ _).trans
              ((List.Perm.swap _ _ _).cons _))).free
            have hrest := (hfree.congr (List.Perm.swap _ _ _)).free
            rw [hrest.use_eq (by simp)]
            exact ⟨h.setHeap (rsaVerify_owns hrest List.mem_cons_self args).free, rfl⟩
      · intro p hp
        simp only [List.reduceOption_cons_of_some, h.vrfCtx, List.mem_cons] at hp
        rw [List.reduceOption_mem_iff] at hp
        simp only [List.mem_cons, List.mem_append, TaCryptoVrf.keys, Option.mem_toList]
        rcases hp with rfl | rfl | rfl | hp
        · exact .inl rfl
        · exact .inr (.inl rfl)
        · simp
        · simp only [List.mem_cons, List.not_mem_nil, or_false] at hp
          rcases hp with hp | hp <;> simp [hp.symm]

theorem mdFinal_owns (h : VrfOwns s pvrf pmd) (ok : Bool) :
    VrfOwns (cmscbbMdFinal s pmd ok).1 pvrf pmd ∧ (cmscbbMdFinal s pmd ok).1.md.op.objects = [] := by
  unfold cmscbbMdFinal
  rw [h.useMd]
  dsimp only
  by_cases halgo : s.md.hashAlgo = CMSCBB_HASH_SHA256
  · rw [if_pos halgo]
    obtain ⟨howns, hop⟩ := pkicmsSha256Final_owns h.owns h.paired ok
    refine ⟨⟨h.vrfCtx, h.mdCtx, ?_, ?_, fun _ => halgo⟩, ?_⟩
    · dsimp only
      rw [hop]
      exact howns
    · dsimp only
      rw [hop]
      rfl
    · dsimp only
      rw [hop]
      rfl
  · rw [if_neg halgo]
    have hdesc : s.md.op.desc = none := by
      by_contra hsome
      exact halgo (h.algo (Option.isSome_iff_ne_none.mpr hsome))
    exact ⟨h, ShashSha256.objects_eq_nil h.paired hdesc⟩

/-- A final that has a place for its result ends the digest. -/
theorem final_owns (h : VrfOwns s pvrf pmd) {args : FinalArgs} (hresult : args.resultNull = false) :
    VrfOwns (cmscbbCryptoVerifyFinal s args).1 pvrf pmd ∧
      (cmscbbCryptoVerifyFinal s args).1.md.op.objects = [] := by
  unfold cmscbbCryptoVerifyFinal
  split
  · next hnone => simp [h.vrfCtx] at hnone
  · next p hp =>
      obtain rfl : pvrf = p := Option.some.inj (h.vrfCtx.symm.trans hp)
      rw [h.useVrf]
      dsimp only
      split
      · next hnone => simp [h.mdCtx] at hnone
      · next q hq =>
          obtain rfl : pmd = q := Option.some.inj (h.mdCtx.symm.trans hq)
          rw [hresult, if_neg (by simp)]
          have hmd := mdFinal_owns h args.shashFinal
          revert hmd
          change VrfOwns (cmscbbMdFinal s pmd args.shashFinal).1 pvrf pmd ∧ _ → _
          rcases cmscbbMdFinal s pmd args.shashFinal with ⟨t, ret⟩
          intro hmd
          cases ret with
          | error e => exact hmd
          | ok _ =>
              obtain ⟨howns, hkept⟩ := verifyRsa_owns hmd.1 args
              exact ⟨howns, by rw [hkept]; exact hmd.2⟩

theorem freeOption_owns {p : Option ℕ} (ho : h.Owns (p.toList ++ l)) : (p.elim h h.free).Owns l := by
  cases p with
  | none => exact ho
  | some p => exact ho.free

theorem destroy_owns (h : VrfOwns s pvrf pmd) :
    (cmscbbCryptoVerifyDestroyCtx s).heap.Owns s.md.op.objects := by
  have howns : s.heap.Owns (pmd :: (s.vrf.ekey.toList ++ (s.vrf.nkey.toList ++
      pvrf :: s.md.op.objects))) := by
    refine h.owns.congr (List.perm_iff_count.mpr fun p => ?_)
    simp only [TaCryptoVrf.keys, List.count_append, List.count_cons]
    omega
  unfold cmscbbCryptoVerifyDestroyCtx
  split
  · next hnone => simp [h.vrfCtx] at hnone
  · next p hp =>
      obtain rfl : pvrf = p := Option.some.inj (h.vrfCtx.symm.trans hp)
      rw [h.useVrf, h.mdCtx]
      have hmd : (cmscbbFree s.heap (some pmd)).Owns _ := (howns.use List.mem_cons_self).free
      have hkeys := freeOption_owns (freeOption_owns hmd)
      exact (hkeys.use List.mem_cons_self).free

/-! ## What is doomed stays so -/

theorem pkicmsSha256Init_grows (h : Heap) (ans : Sha256InitAnswers) :
    Grows h (pkicmsSha256Init h ans).1 := by
  unfold pkicmsSha256Init
  cases ans.allocShash
  · exact .refl h
  · have hshash := Grows.alloc h
    cases ans.kmalloc
    · exact hshash.trans (freeShashSha256_grows _ ⟨some _, none⟩)
    · have hdesc := (hshash.trans (Grows.alloc _)).trans (Grows.use _ h.alloc.2.alloc.1)
      cases ans.shashInit
      · exact hdesc.trans (freeShashSha256_grows _ ⟨some _, some _⟩)
      · exact hdesc

theorem pkicmsSha256Final_grows (h : Heap) (op : ShashSha256) (ok : Bool) :
    Grows h (pkicmsSha256Final h op ok).1 := by
  unfold pkicmsSha256Final
  split
  · exact .refl h
  · exact (Grows.use _ _).trans (freeShashSha256_grows _ op)

theorem pkicmsSha256String_grows (h : Heap) (ans : Sha256StringAnswers) :
    Grows h (pkicmsSha256String h ans).1 := by
  have hinit := pkicmsSha256Init_grows h ans.init
  unfold pkicmsSha256String
  revert hinit
  rcases pkicmsSha256Init h ans.init with ⟨h₁, op₁, r₁⟩
  intro hinit
  cases r₁
  · exact hinit
  · have hupdate := pkicmsSha256Update_grows h₁ op₁ false ans.update
    dsimp only
    revert hupdate
    rcases pkicmsSha256Update h₁ op₁ false ans.update with ⟨h₂, op₂, r₂⟩
    intro hupdate
    have hfinal := (hinit.trans hupdate).trans (pkicmsSha256Final_grows h₂ op₂ ans.final)
    cases r₂ <;> exact hfinal

theorem pkicmsSha256Strings_grows (h : Heap) (digests : List Sha256StringAnswers) :
    Grows h (pkicmsSha256Strings h digests).1 := by
  induction digests generalizing h with
  | nil => exact .refl h
  | cons ans rest ih =>
      have hstring := pkicmsSha256String_grows h ans
      unfold pkicmsSha256Strings
      revert hstring
      rcases pkicmsSha256String h ans with ⟨h₁, r⟩
      intro hstring
      cases r
      · exact hstring
      · exact hstring.trans (ih h₁)

theorem useAll_grows (h : Heap) (ps : List (Option ℕ)) : Grows h (useAll h ps) := by
  induction ps generalizing h with
  | nil => exact .refl h
  | cons p ps ih =>
      cases p with
      | none => exact ih h
      | some p => exact (Grows.use h p).trans (ih (h.use p))

theorem rsaVerify_grows (h : Heap) (args : FinalArgs) (buffer : ℕ) :
    Grows h (rsaVerify h args buffer).1 := by
  unfold rsaVerify
  dsimp only
  split_ifs
  · exact (Grows.use _ _).trans (pkicmsSha256Strings_grows _ _)
  · exact Grows.use _ _

theorem verifyRsa_keeps (s : VrfState) (pmd : ℕ) (args : FinalArgs) :
    Keeps s (cmscbbVerifyRsa s pmd args).1 := by
  have hsig := Grows.alloc s.heap
  have hdec := hsig.trans (Grows.alloc s.heap.alloc.2)
  have huse (ps : List (Option ℕ)) := hdec.trans (useAll_grows s.heap.alloc.2.alloc.2 ps)
  have hfree {h : Heap} (hg : Grows s.heap h) (p q : ℕ) : Grows s.heap ((h.free p).free q) :=
    (hg.trans (Grows.free _ _)).trans (Grows.free _ _)
  unfold cmscbbVerifyRsa
  cases args.readSig
  · exact ⟨rfl, rfl, .refl _⟩
  · cases args.allocDec
    · exact ⟨rfl, rfl, hsig.trans (Grows.free _ _)⟩
    · cases args.powm
      · exact ⟨rfl, rfl, hfree (huse _) _ _⟩
      · have hbuffer (ps : List (Option ℕ)) (p : ℕ) := (huse ps).trans (Grows.use _ p)
        cases args.buffer
        · exact ⟨rfl, rfl, hfree (hbuffer _ _) _ _⟩
        · refine ⟨rfl, rfl, ?_⟩
          refine Grows.trans ?_ (Grows.free _ _)
          refine Grows.trans ?_ (rsaVerify_grows _ _ _)
          refine Grows.trans ?_ (Grows.use _ _)
          exact hfree ((hbuffer _ _).trans (Grows.alloc _)) _ _

theorem mdFinal_keeps (s : VrfState) (pmd : ℕ) (ok : Bool) :
    Keeps s (cmscbbMdFinal s pmd ok).1 := by
  unfold cmscbbMdFinal
  dsimp only
  split_ifs
  all_goals first
    | exact ⟨rfl, rfl, (Grows.use _ _).trans (pkicmsSha256Final_grows _ _ _)⟩
    | exact ⟨rfl, rfl, Grows.use _ _⟩

theorem final_keeps (s : VrfState) (args : FinalArgs) :
    Keeps s (cmscbbCryptoVerifyFinal s args).1 := by
  unfold cmscbbCryptoVerifyFinal
  split
  · exact ⟨rfl, rfl, .refl _⟩
  · next pvrf _ =>
      have huse : Keeps s { s with heap := s.heap.use pvrf } := ⟨rfl, rfl, Grows.use _ _⟩
      dsimp only
      split
      · exact huse
      · next pmd _ =>
          split_ifs
          · exact ⟨rfl, rfl, huse.grows.trans (cmscbbFree_grows (s.heap.use pvrf) (some pmd))⟩
          · have hmd := mdFinal_keeps { s with heap := s.heap.use pvrf } pmd args.shashFinal
            revert hmd
            rcases cmscbbMdFinal { s with heap := s.heap.use pvrf } pmd args.shashFinal with ⟨t, ret⟩
            intro hmd
            cases ret with
            | error e => exact ⟨hmd.vrfCtx, hmd.vrf, huse.grows.trans hmd.grows⟩
            | ok _ =>
                have hrsa := verifyRsa_keeps t pmd args
                exact ⟨hrsa.vrfCtx.trans hmd.vrfCtx, hrsa.vrf.trans hmd.vrf,
                  (huse.grows.trans hmd.grows).trans hrsa.grows⟩

/-- A final without a place for its result frees the digest context. -/
theorem final_dooms (h : VrfOwns s pvrf pmd) {args : FinalArgs} (hresult : args.resultNull = true) :
    Doomed (cmscbbCryptoVerifyFinal s args).1 pmd := by
  have hkeeps := final_keeps s args
  refine ⟨by rw [hkeeps.vrfCtx, h.vrfCtx]; rfl, by rw [hkeeps.vrf, h.mdCtx], ?_⟩
  unfold cmscbbCryptoVerifyFinal
  split
  · next hnone => simp [h.vrfCtx] at hnone
  · next p hp =>
      dsimp only
      split
      · next hnone => simp [h.mdCtx] at hnone
      · next q hq =>
          obtain rfl : pmd = q := Option.some.inj (h.mdCtx.symm.trans hq)
          rw [hresult, if_pos rfl]
          exact mem_cmscbbFree (s.heap.use p) pmd

theorem destroy_doomed (h : Doomed s pmd) : ¬ (cmscbbCryptoVerifyDestroyCtx s).heap.Clean := by
  unfold cmscbbCryptoVerifyDestroyCtx
  split
  · next hnone => exact absurd h.vrfCtx (by simp [hnone])
  · next pvrf _ =>
      rw [h.mdCtx]
      have hin : pmd ∈ (s.heap.use pvrf).frees := h.freed
      have huse : ((s.heap.use pvrf).use pmd).misused = true := misused_of_use hin
      have hmis : (cmscbbFree (s.heap.use pvrf) (some pmd)).misused = true :=
        (Grows.free _ pmd).misused huse
      have hoption {h : Heap} {p : Option ℕ} (hm : h.misused = true) :
          (p.elim h h.free).misused = true := by
        cases p with
        | none => exact hm
        | some p => exact (Grows.free _ p).misused hm
      exact Grows.not_clean (cmscbbFree_grows _ (some pvrf)) (hoption (hoption hmis))

/-! ## The session -/

theorem objects_eq_nil_iff (h : op.Paired) : op.objects = [] ↔ op.desc.isSome = false := by
  constructor
  · intro hnil
    cases hdesc : op.desc with
    | none => rfl
    | some desc => simp [ShashSha256.objects, hdesc] at hnil
  · intro hnone
    exact ShashSha256.objects_eq_nil h (by simpa using hnone)

/-- Without a context no call does anything. -/
theorem runUpdates_none (h : s.vrfCtx = none) (updates : List UpdateArgs) :
    runUpdates s updates = s := by
  induction updates with
  | nil => rfl
  | cons args updates ih =>
      have hstep : (cmscbbCryptoVerifyUpdate s args).1 = s := by simp [cmscbbCryptoVerifyUpdate, h]
      rw [runUpdates, List.foldl_cons, hstep]
      exact ih

theorem session_none (h : s.vrfCtx = none) (init : InitArgs) (updates : List UpdateArgs)
    (final : Option FinalArgs) :
    let t := runUpdates (cmscbbCryptoVerifyInit s init).1 updates
    cmscbbCryptoVerifyDestroyCtx (final.elim t fun args => (cmscbbCryptoVerifyFinal t args).1) =
      s := by
  have hinit : (cmscbbCryptoVerifyInit s init).1 = s := by simp [cmscbbCryptoVerifyInit, h]
  have hdestroy : cmscbbCryptoVerifyDestroyCtx s = s := by simp [cmscbbCryptoVerifyDestroyCtx, h]
  dsimp only
  rw [hinit, runUpdates_none h]
  cases final with
  | none => exact hdestroy
  | some args =>
      have hfinal : (cmscbbCryptoVerifyFinal s args).1 = s := by simp [cmscbbCryptoVerifyFinal, h]
      rw [Option.elim_some, hfinal, hdestroy]

/-- After a session every object was freed once and none was used after that,
exactly when the digest was fed by every update and ended by a final. -/
theorem session_clean_iff (session : VrfSession) :
    (runSession session).heap.Clean ↔ session.Released := by
  obtain ⟨create, init, updates, final⟩ := session
  unfold runSession VrfSession.Released
  dsimp only
  cases hcreates : create.creates
  · obtain ⟨hnone, howns⟩ := create_fails hcreates
    rw [session_none hnone, howns.clean_iff]
    exact iff_of_true rfl fun h => absurd h (by simp)
  · obtain ⟨pvrf, pmd, hnew, hkeys, hop⟩ := create_owns hcreates
    obtain ⟨hinit, hdesc⟩ := init_owns hnew hkeys hop init
    rw [forall_prop_of_true rfl, ← hdesc]
    generalize (cmscbbCryptoVerifyInit (cmscbbCryptoVerifyCreateCtx vrfInit create).1 init).1 = s
      at hinit ⊢
    by_cases hgood : ∀ args ∈ updates, s.md.op.desc.isSome = true ∧ args.feedsHash = true
    · obtain ⟨howns, hsome⟩ := updates_owns hinit hgood
      rw [← hsome]
      cases final with
      | none =>
          rw [Option.elim_none, (destroy_owns howns).clean_iff, objects_eq_nil_iff howns.paired]
          exact ⟨fun h => ⟨hsome ▸ hgood, h⟩, And.right⟩
      | some args =>
          dsimp only [Option.elim_some]
          cases hresult : args.resultNull
          · obtain ⟨hfinal, hnil⟩ := final_owns howns hresult
            exact iff_of_true ((destroy_owns hfinal).clean_iff.mpr hnil) ⟨hsome ▸ hgood, rfl⟩
          · exact iff_of_false (destroy_doomed (final_dooms howns hresult)) (by simp)
    · have hdoomed := updates_doom hinit hgood
      refine iff_of_false ?_ fun h => hgood h.1
      cases final with
      | none => exact destroy_doomed hdoomed
      | some args => exact destroy_doomed ((final_keeps _ args).doomed hdoomed)

def createExample : CreateArgs where
  ctxNull := false
  mallocVrf := true
  mallocMd := true

def initExample : InitArgs where
  valid := true
  hashId := CMSCBB_HASH_SHA256
  sha256 := { allocShash := true, kmalloc := true, shashInit := true }
  readE := true
  readN := true

/-- The digest cannot be fed, and the context is destroyed after that. -/
def failedUpdateSession : VrfSession where
  create := createExample
  init := initExample
  updates := [{ dataNull := false, len := 16, shashUpdate := false }]
  final := none

theorem failed_update_frees_twice : ¬ (runSession failedUpdateSession).heap.Clean := by
  intro h
  have hfresh := h.fresh
  revert hfresh
  decide +kernel

end OpiaiKernel.Pkicms
