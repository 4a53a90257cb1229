import OpiaiKernel.Trs.LogicCqRing

/-!
# What a receive takes out of the queue

A version 1 receive skips the match CQEs of others at the head of the queue and
takes the run of entries behind them.  The run ends before the next match CQE,
or with it when it is the receiver's own.  Moving the skipped entries over the
hole leaves the rest of the content in its order.
-/

namespace OpiaiKernel.Trs

variable {α : Type} [LogicCqe α] {para : ReportRecvInfo} {t : ℕ}

/-! ## Reports -/

/-- A match CQE of another receiver. -/
def Foreign (para : ReportRecvInfo) (c : α) : Prop :=
  isCqeNeedMatch c ∧ ¬ isCqeMatch c para.streamId para.taskId

instance (c : α) : Decidable (Foreign para c) := inferInstanceAs (Decidable (_ ∧ _))

/-- Only the last entry may be a match CQE, and then it is the receiver's. -/
def Reportable (para : ReportRecvInfo) : List α → Prop
  | [] => True
  | c :: cs =>
      if isCqeNeedMatch c then isCqeMatch c para.streamId para.taskId ∧ cs = []
      else Reportable para cs

/-- A receive skips `pre`, takes `run` and leaves `post`. -/
structure Takes (para : ReportRecvInfo) (xs pre run post : List α) : Prop where
  split : xs = pre ++ (run ++ post)
  skipped : ∀ c ∈ pre, Foreign para c
  nonempty : run ≠ []
  reportable : Reportable para run
  length_le : run.length ≤ para.cqeNum

theorem Reportable.not_foreign {run : List α} (h : Reportable para run) :
    ∀ c ∈ run, ¬ Foreign para c := by
  induction run with
  | nil => simp
  | cons c cs ih =>
      rw [Reportable] at h
      intro b hb
      split at h
      · next hneed =>
          obtain ⟨hmatch, rfl⟩ := h
          obtain rfl := List.mem_singleton.mp hb
          exact fun hf => hf.2 hmatch
      · next hneed =>
          rcases List.mem_cons.mp hb with rfl | hb
          · exact fun hf => hneed hf.1
          · exact ih h b hb

theorem Reportable.match_last {xs ys : List α} {c : α} (h : Reportable para (xs ++ c :: ys))
    (hneed : isCqeNeedMatch c) : isCqeMatch c para.streamId para.taskId ∧ ys = [] := by
  induction xs with
  | nil =>
      rw [List.nil_append, Reportable, if_pos hneed] at h
      exact h
  | cons b xs ih =>
      rw [List.cons_append, Reportable] at h
      split at h
      · simp at h
      · exact ih h

theorem Takes.not_all_foreign {xs pre run post : List α} (h : Takes para xs pre run post) :
    ¬ ∀ c ∈ xs, Foreign para c := by
  intro hall
  obtain ⟨c, hc⟩ := List.exists_mem_of_ne_nil run h.nonempty
  apply h.reportable.not_foreign c hc
  apply hall
  rw [h.split]
  simp [hc]

theorem Takes.length_eq {xs pre run post : List α} (h : Takes para xs pre run post) :
    xs.length = pre.length + (run.length + post.length) := by
  rw [h.split, List.length_append, List.length_append]

theorem Takes.append {xs pre run post : List α} (h : Takes para xs pre run post) (ys : List α) :
    Takes para (xs ++ ys) pre run (post ++ ys) where
  split := by simp [h.split]
  skipped := h.skipped
  nonempty := h.nonempty
  reportable := h.reportable
  length_le := h.length_le

theorem Takes.prepend {xs pre run post ys : List α} (h : Takes para xs pre run post)
    (hys : ∀ c ∈ ys, Foreign para c) : Takes para (ys ++ xs) (ys ++ pre) run post where
  split := by simp [h.split]
  skipped := by
    intro c hc
    rcases List.mem_append.mp hc with hc | hc
    · exact hys c hc
    · exact h.skipped c hc
  nonempty := h.nonempty
  reportable := h.reportable
  length_le := h.length_le

/-! ## The scan -/

namespace LogicCq

/-- Once entries have been found the scan extends the run. -/
theorem matchScan_extend (para : ReportRecvInfo) (addr : ℕ → α) {reportCnt : ℕ} (left pos searchStart searchNum : ℕ)
    (hpos : 0 < searchNum) (hlt : searchNum < reportCnt) :
    ∃ run post, Ring.slice addr pos left = run ++ post ∧ Reportable para run ∧
      searchNum + run.length ≤ reportCnt ∧
      matchScan addr para reportCnt pos left searchStart searchNum =
        (searchStart, searchNum + run.length) := by
  induction left generalizing pos searchNum with
  | zero => exact ⟨[], [], rfl, trivial, by simpa using hlt.le, rfl⟩
  | succ left ih =>
      have hne : searchNum ≠ 0 := by omega
      rw [Ring.slice_succ, matchScan]
      split
      · next hneed =>
          split
          · next hmatch =>
              refine ⟨[addr pos], _, rfl, ?_, hlt, rfl⟩
              simp [Reportable, hneed, hmatch]
          · exact ⟨[], _, rfl, trivial, hlt.le, rfl⟩
      · next hneed =>
          split
          · refine ⟨[addr pos], _, rfl, ?_, hlt, rfl⟩
            simp [Reportable, hneed]
          · next hnge =>
              obtain ⟨run, post, hsplit, hrep, hle, hscan⟩ :=
                ih (pos + 1) (searchNum + 1) (by omega) (by omega)
              refine ⟨addr pos :: run, post, by rw [hsplit]; rfl, ?_, ?_, ?_⟩
              · simpa [Reportable, hneed] using hrep
              · simp only [List.length_cons]
                omega
              · rw [hscan, List.length_cons]
                congr 1
                omega

/-- From the start the scan skips the match CQEs of others. -/
theorem matchScan_start (para : ReportRecvInfo) (addr : ℕ → α) {reportCnt : ℕ} (left pos searchStart : ℕ)
    (hcnt : 0 < reportCnt) (hle : reportCnt ≤ para.cqeNum) :
    (matchScan addr para reportCnt pos left searchStart 0 = (searchStart, 0) ∧
        ∀ c ∈ Ring.slice addr pos left, Foreign para c) ∨
      ∃ pre run post, Takes para (Ring.slice addr pos left) pre run post ∧
        matchScan addr para reportCnt pos left searchStart 0 =
          (pos + pre.length, run.length) := by
  induction left generalizing pos with
  | zero => exact .inl ⟨rfl, by simp⟩
  | succ left ih =>
      rw [Ring.slice_succ, matchScan]
      split
      · next hneed =>
          split
          · next hmatch =>
              refine .inr ⟨[], [addr pos], _, ⟨rfl, by simp, by simp, ?_, ?_⟩, rfl⟩
              · simp [Reportable, hneed, hmatch]
              · rw [List.length_singleton]
                omega
          · next hmatch =>
              have hforeign : ∀ c ∈ [addr pos], Foreign para c := by
                intro c hc
                rw [List.mem_singleton.mp hc]
                exact ⟨hneed, hmatch⟩
              rw [if_neg (by simp), if_neg (by omega)]
              rcases ih (pos + 1) with ⟨hscan, hall⟩ | ⟨pre, run, post, htakes, hscan⟩
              · refine .inl ⟨hscan, ?_⟩
                intro c hc
                rcases List.mem_cons.mp hc with rfl | hc
                · exact ⟨hneed, hmatch⟩
                · exact hall c hc
              · refine .inr ⟨addr pos :: pre, run, post, htakes.prepend hforeign, ?_⟩
                rw [hscan, List.length_cons]
                congr 1
                omega
      · next hneed =>
          dsimp only
          rw [if_pos rfl]
          split
          · refine .inr ⟨[], [addr pos], _, ⟨rfl, by simp, by simp, ?_, ?_⟩, rfl⟩
            · simp [Reportable, hneed]
            · rw [List.length_singleton]
              omega
          · next hnge =>
              obtain ⟨run, post, hsplit, hrep, hlen, hscan⟩ :=
                matchScan_extend para addr left (pos + 1) pos (0 + 1) (by omega)
                  (by omega : 0 + 1 < reportCnt)
              refine .inr ⟨[], addr pos :: run, post, ⟨?_, by simp, by simp, ?_, ?_⟩, ?_⟩
              · rw [hsplit]
                rfl
              · simpa [Reportable, hneed] using hrep
              · rw [List.length_cons]
                omega
              · rw [hscan, List.length_cons]
                congr 1
                omega

theorem getMatchCopyRange_spec {cq : LogicCq α} {r : ℕ × ℕ} {a b : ℕ}
    (hr : cq.getMatchCopyRange para a b = r) (hnum : 0 < para.cqeNum) (hab : a < b)
    (hb : b ≤ 65536) :
    (r.2 = 0 ∧ ∀ c ∈ Ring.slice cq.addr a (b - a), Foreign para c) ∨
      ∃ pre run post, Takes para (Ring.slice cq.addr a (b - a)) pre run post ∧
        r = (a + pre.length, run.length) := by
  have hsub : Word.sub 32 b a = b - a := Word.sub_of_le hab.le (by omega)
  have hspec := matchScan_start para cq.addr (b - a) a 0
    (by omega : 0 < min (b - a) para.cqeNum) (by omega)
  rw [getMatchCopyRange, hsub] at hr
  rcases hspec with ⟨hscan, hall⟩ | ⟨pre, run, post, htakes, hscan⟩
  · exact .inl ⟨by rw [← hr, hscan], hall⟩
  · exact .inr ⟨pre, run, post, htakes, hr ▸ hscan⟩

theorem matchRange_spec {cq : LogicCq α} (hwf : cq.Wf) (hnum : 0 < para.cqeNum)
    (ht : t < cq.cqDepth) (hne : t ≠ cq.head) :
    ((cq.matchRange para t).2.1 = 0 ∧ ∀ c ∈ cq.contentTo t, Foreign para c) ∨
      ∃ pre run post, Takes para (cq.contentTo t) pre run post ∧
        cq.matchRange para t = (Ring.pos cq.cqDepth cq.head pre.length, run.length,
          decide (cq.cqDepth ≤ cq.head + pre.length)) ∧
        Ring.pos cq.cqDepth cq.head pre.length + run.length ≤ cq.cqDepth := by
  have hhead := hwf.head_lt
  have hdepth := hwf.depth_le
  rw [matchRange, contentTo]
  obtain ⟨r₁, hr₁⟩ : ∃ r, cq.getMatchCopyRange para cq.head t = r := ⟨_, rfl⟩
  obtain ⟨r₂, hr₂⟩ : ∃ r, cq.getMatchCopyRange para cq.head cq.cqDepth = r := ⟨_, rfl⟩
  obtain ⟨r₃, hr₃⟩ : ∃ r, cq.getMatchCopyRange para 0 t = r := ⟨_, rfl⟩
  rw [hr₁, hr₂, hr₃]
  rcases Nat.lt_or_ge cq.head t with hlt | hge
  · -- the content does not wrap
    rw [if_pos hlt, Ring.count_of_le hlt.le ht, Ring.content_eq_slice _ (by omega)]
    rcases getMatchCopyRange_spec hr₁ hnum hlt (by omega) with
      ⟨hzero, hall⟩ | ⟨pre, run, post, htakes, rfl⟩
    · exact .inl ⟨hzero, hall⟩
    · have hlen := htakes.length_eq
      rw [Ring.length_slice] at hlen
      have hrun := List.length_pos_of_ne_nil htakes.nonempty
      refine .inr ⟨pre, run, post, htakes, ?_⟩
      rw [Ring.pos_of_lt (by omega), decide_eq_false (by omega)]
      exact ⟨rfl, by omega⟩
  · have hwrap : Ring.content cq.addr cq.cqDepth cq.head (Ring.count cq.cqDepth cq.head t) =
        Ring.slice cq.addr cq.head (cq.cqDepth - cq.head) ++ Ring.slice cq.addr 0 (t - 0) := by
      rw [Ring.count_of_gt (by omega) hhead,
        show t + cq.cqDepth - cq.head = cq.cqDepth - cq.head + t by omega,
        Ring.content_wrap _ hhead, Ring.content_eq_slice _ (by omega), Nat.sub_zero]
    rw [if_neg (by omega), hwrap]
    rcases getMatchCopyRange_spec hr₂ hnum hhead hdepth with
      ⟨hzero, hall⟩ | ⟨pre, run, post, htakes, rfl⟩
    · -- nothing before the wrap, the scan goes on behind it
      dsimp only
      rw [if_pos hzero]
      rcases Nat.eq_zero_or_pos t with rfl | hpos
      · rw [getMatchCopyRange, Word.sub_of_le le_rfl (Nat.two_pow_pos 32)] at hr₃
        exact .inl ⟨by rw [← hr₃]; rfl, by simpa using hall⟩
      · rcases getMatchCopyRange_spec hr₃ hnum hpos (by omega) with
          ⟨hzero', hall'⟩ | ⟨pre, run, post, htakes, rfl⟩
        · refine .inl ⟨hzero', ?_⟩
          intro c hc
          rcases List.mem_append.mp hc with hc | hc
          · exact hall c hc
          · exact hall' c hc
        · have hlen := htakes.length_eq
          rw [Ring.length_slice] at hlen
          refine .inr ⟨_, run, post, htakes.prepend hall, ?_⟩
          rw [List.length_append, Ring.length_slice, Ring.pos_of_ge (by omega) (by omega),
            decide_eq_true (by omega)]
          refine ⟨?_, by omega⟩
          simp only [Prod.mk.injEq, and_true]
          omega
    · have hlen := htakes.length_eq
      rw [Ring.length_slice] at hlen
      have hrun := List.length_pos_of_ne_nil htakes.nonempty
      refine .inr ⟨pre, run, post ++ _, htakes.append _, ?_⟩
      dsimp only
      rw [if_neg (by omega), Ring.pos_of_lt (by omega), decide_eq_false (by omega)]
      exact ⟨rfl, by omega⟩

/-- The entries copied to the user are the run. -/
theorem slice_of_takes {cq : LogicCq α} {pre run post : List α} {n : ℕ}
    (h : Takes para (Ring.content cq.addr cq.cqDepth cq.head n) pre run post)
    (hfit : Ring.pos cq.cqDepth cq.head pre.length + run.length ≤ cq.cqDepth) :
    Ring.slice cq.addr (Ring.pos cq.cqDepth cq.head pre.length) run.length = run := by
  have hlen := h.length_eq
  rw [Ring.length_content] at hlen
  have hsplit := h.split
  rw [hlen, Ring.content_add, Ring.content_add, Ring.content_eq_slice _ hfit] at hsplit
  have hpre := (List.append_inj hsplit (by simp)).2
  exact (List.append_inj hpre (by simp)).1

/-- Closing the hole and updating the head takes the run out of the content. -/
theorem content_headUpdate {cq : LogicCq α} (hwf : cq.Wf) {addr : ℕ → α} {pre run post : List α}
    (htakes : Takes para cq.content pre run post)
    (hclose : Closes cq.addr addr cq.cqDepth cq.head pre.length run.length) :
    ({ cq with addr := addr }.headUpdate run.length).content = pre ++ post := by
  have hlive := htakes.length_eq
  rw [content_eq, Ring.length_content] at hlive
  have hlt := hwf.live_lt
  have hwf' : { cq with addr := addr }.Wf := ⟨hwf.head_lt, hwf.tail_lt, hwf.depth_le⟩
  have hhead := head_headUpdate hwf' (n := run.length) (by dsimp only; omega)
  have hlive' := live_headUpdate hwf' (n := run.length) (by
    change run.length ≤ cq.live
    omega)
  have hsplit := htakes.split
  rw [content_eq, hlive, Ring.content_add] at hsplit
  obtain ⟨hpre, hrest⟩ := List.append_inj hsplit (by simp)
  rw [Ring.content_add] at hrest
  obtain ⟨-, hpost⟩ := List.append_inj hrest (by simp)
  have hnum : ({ cq with addr := addr } : LogicCq α).live - run.length =
      pre.length + post.length := by
    change cq.live - run.length = _
    omega
  rw [content_eq, hlive', hhead, hnum]
  calc
    Ring.content addr cq.cqDepth (Ring.pos cq.cqDepth cq.head run.length)
        (pre.length + post.length) =
        Ring.content cq.addr cq.cqDepth cq.head pre.length ++
          Ring.content cq.addr cq.cqDepth (Ring.pos cq.cqDepth cq.head (pre.length + run.length))
            post.length := hclose.content_eq (by omega)
    _ = pre ++ post := by rw [hpre, ← Ring.pos_pos, hpost]

/-! ## The whole receive -/

/-- The queue holds an entry that the receive would report. -/
def Due (cq : LogicCq α) (para : ReportRecvInfo) : Prop :=
  ∃ c ∈ cq.content, para.version = 1 → ¬ Foreign para c

theorem Due.mono {cq cq' : LogicCq α} (hsub : cq'.content ⊆ cq.content) (h : cq'.Due para) :
    cq.Due para := by
  obtain ⟨c, hc, hfor⟩ := h
  exact ⟨c, hsub hc, hfor⟩

theorem matchCopy_cases {cq : LogicCq α} (hwf : cq.Wf) (hnum : 0 < para.cqeNum)
    (hne : ¬ cq.isEmpty) (hversion : para.version = 1) (uncopied : ℕ) :
    (¬ cq.Due para ∧ cq.matchCopy para uncopied = (.error (.errno .EAGAIN), cq)) ∨
      (cq.Due para ∧ uncopied ≠ 0 ∧
          cq.matchCopy para uncopied = (.error (.uncopied uncopied), cq)) ∨
        ∃ cqes cq', cq.Due para ∧ cq.matchCopy para uncopied = (.ok cqes, cq') ∧
          (cq'.headUpdate cqes.length).Wf ∧ cq'.valid = cq.valid ∧
            (cq'.headUpdate cqes.length).content ⊆ cq.content := by
  rw [matchCopy]
  rcases matchRange_spec hwf hnum hwf.tail_lt hne with
    ⟨hzero, hall⟩ | ⟨pre, run, post, htakes, hr, hfit⟩
  · refine .inl ⟨?_, if_pos hzero⟩
    rintro ⟨c, hc, hfor⟩
    exact hfor hversion (hall c hc)
  · have hrun := List.length_pos_of_ne_nil htakes.nonempty
    have hdue : cq.Due para := by
      obtain ⟨c, hc⟩ := List.exists_mem_of_ne_nil run htakes.nonempty
      refine ⟨c, ?_, fun _ => htakes.reportable.not_foreign c hc⟩
      rw [content, htakes.split]
      simp [hc]
    have hlen := htakes.length_eq
    rw [contentTo, Ring.length_content] at hlen
    have hlive := hwf.live_lt
    rw [live] at hlive
    have hclose := closes_reportMoves cq hwf.depth_le hwf.head_lt hrun (by omega) hfit
    rw [hr]
    dsimp only
    rw [if_neg (by omega), slice_of_takes htakes hfit]
    split
    · next hfault => exact .inr (.inl ⟨hdue, hfault, rfl⟩)
    · refine .inr (.inr ⟨run, _, hdue, rfl, ?_⟩)
      rw [moveAll_eq]
      have hwf' := hwf.headUpdate run.length
      refine ⟨⟨hwf'.head_lt, hwf'.tail_lt, hwf'.depth_le⟩, rfl, ?_⟩
      rw [content_headUpdate hwf htakes hclose, content, htakes.split]
      intro c hc
      rcases List.mem_append.mp hc with hc | hc <;> simp [hc]

/-- A receive on a valid queue finds nothing for it, or fails to copy, or takes
entries out of the queue. -/
theorem copyReport_cases {cq : LogicCq α} (hwf : cq.Wf) (hvalid : cq.valid = true)
    (hnum : 0 < para.cqeNum) (uncopied : ℕ) :
    (¬ cq.Due para ∧ cq.copyReport para uncopied = (.error (.errno .EAGAIN), cq)) ∨
      (cq.Due para ∧ uncopied ≠ 0 ∧
          cq.copyReport para uncopied = (.error (.uncopied uncopied), cq)) ∨
        ∃ cqes cq', cq.Due para ∧ cq.copyReport para uncopied = (.ok cqes, cq') ∧
          cq'.Wf ∧ cq'.valid = true ∧ cq'.content ⊆ cq.content := by
  rw [copyReport, if_neg (by simp [hvalid])]
  split
  · next hempty =>
      refine .inl ⟨?_, rfl⟩
      rintro ⟨c, hc, -⟩
      rw [content_eq, hwf.live_eq_zero_iff.mpr hempty] at hc
      simp at hc
  · next hne =>
      by_cases hversion : para.version = 1
      · rw [if_pos hversion]
        rcases matchCopy_cases hwf hnum hne hversion uncopied with
          ⟨hdue, hcopy⟩ | ⟨hdue, hfault, hcopy⟩ | ⟨cqes, cq', hdue, hcopy, hwf', hvalid', hsub⟩
        · exact .inl ⟨hdue, by rw [hcopy]⟩
        · exact .inr (.inl ⟨hdue, hfault, by rw [hcopy]⟩)
        · exact .inr (.inr ⟨cqes, _, hdue, by rw [hcopy], hwf', hvalid'.trans hvalid, hsub⟩)
      · rw [if_neg hversion]
        have hdue : cq.Due para := by
          have hlive : cq.live ≠ 0 := fun hzero => hne (hwf.live_eq_zero_iff.mp hzero)
          have hcontent : cq.content ≠ [] := by
            intro hnil
            have hlen := congrArg List.length hnil
            rw [content_eq, Ring.length_content] at hlen
            exact hlive hlen
          obtain ⟨c, hc⟩ := List.exists_mem_of_ne_nil _ hcontent
          exact ⟨c, hc, fun h => absurd h hversion⟩
        rcases nonMatchCopy_cases hwf hne uncopied with ⟨hfault, hcopy⟩ | ⟨cqes, hcopy, hlen⟩
        · exact .inr (.inl ⟨hdue, hfault, by rw [hcopy]⟩)
        · exact .inr (.inr ⟨cqes, _, hdue, by rw [hcopy], hwf.headUpdate _, hvalid,
            content_headUpdate_subset hwf hlen⟩)

end LogicCq

end OpiaiKernel.Trs
