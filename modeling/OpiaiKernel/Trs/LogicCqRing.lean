import OpiaiKernel.Trs.LogicCq

/-!
# The ring of the logic completion queue

The logical content of the queue is read off from head to tail.  Storing an
entry at the tail does not change it, publishing appends the entry and a head
update drops entries.

A receive that takes entries behind skipped ones leaves a hole in the ring.
`trs_logic_cq_eliminate_holes` shifts the skipped entries over it, across the
wrap in three block moves.  The later entries stay where they are, and no slot
behind them is read or written, so that an entry may be stored at the tail in
between.
-/

namespace OpiaiKernel.Trs.LogicCq

variable {α : Type} {d h t k off cnt : ℕ}

/-- The positions of the ring are in range. -/
structure Wf (cq : LogicCq α) : Prop where
  head_lt : cq.head < cq.cqDepth
  tail_lt : cq.tail < cq.cqDepth
  depth_le : cq.cqDepth ≤ 65536

/-- The content up to a tail that a receive has read. -/
def contentTo (cq : LogicCq α) (tail : ℕ) : List α :=
  Ring.content cq.addr cq.cqDepth cq.head (Ring.count cq.cqDepth cq.head tail)

/-- The logical content of the queue, from head to tail. -/
def content (cq : LogicCq α) : List α := cq.contentTo cq.tail

/-- The number of entries from head to tail. -/
def live (cq : LogicCq α) : ℕ := Ring.count cq.cqDepth cq.head cq.tail

theorem content_eq (cq : LogicCq α) :
    cq.content = Ring.content cq.addr cq.cqDepth cq.head cq.live := rfl

theorem Wf.live_lt {cq : LogicCq α} (hwf : cq.Wf) : cq.live < cq.cqDepth :=
  Ring.count_lt (by have := hwf.head_lt; omega)

theorem Wf.live_eq_zero_iff {cq : LogicCq α} (hwf : cq.Wf) : cq.live = 0 ↔ cq.isEmpty :=
  Ring.count_eq_zero_iff hwf.head_lt hwf.tail_lt

theorem Wf.tail_succ {cq : LogicCq α} (hwf : cq.Wf) : Word.add 32 cq.tail 1 = cq.tail + 1 := by
  have htail := hwf.tail_lt
  have hdepth := hwf.depth_le
  exact Word.add_of_lt (by omega)

theorem Wf.live_succ_lt {cq : LogicCq α} (hwf : cq.Wf) (hfull : ¬ cq.isFull) :
    cq.live + 1 < cq.cqDepth := by
  have hlt := hwf.live_lt
  have hhead := hwf.head_lt
  by_contra hge
  apply hfull
  have hlive : cq.live + 1 = cq.cqDepth := by omega
  have htail : (cq.tail + 1) % cq.cqDepth = Ring.pos cq.cqDepth cq.head (cq.live + 1) := by
    rw [← Ring.pos_pos, live, Ring.pos_count hhead hwf.tail_lt, Ring.pos]
  rw [isFull, hwf.tail_succ, htail, hlive, Ring.pos, Nat.add_mod_right, Nat.mod_eq_of_lt hhead]

/-! ## The queue after a step -/

theorem content_enqueStore {cq : LogicCq α} (hwf : cq.Wf) (c : α) :
    (cq.enqueStore c).content = cq.content :=
  Ring.content_update _ c hwf.head_lt hwf.tail_lt le_rfl

theorem live_enquePublish {cq : LogicCq α} (hwf : cq.Wf) (hlt : cq.live + 1 < cq.cqDepth) :
    cq.enquePublish.live = cq.live + 1 := by
  rw [live, enquePublish, hwf.tail_succ]
  exact Ring.count_succ hwf.head_lt hwf.tail_lt hlt

theorem content_enquePublish {cq : LogicCq α} (hwf : cq.Wf) (hlt : cq.live + 1 < cq.cqDepth) :
    cq.enquePublish.content = cq.content ++ [cq.addr cq.tail] := by
  rw [content_eq, live_enquePublish hwf hlt]
  exact Ring.content_succ _ hwf.head_lt hwf.tail_lt

theorem Wf.enquePublish {cq : LogicCq α} (hwf : cq.Wf) : cq.enquePublish.Wf where
  head_lt := hwf.head_lt
  tail_lt := Nat.mod_lt _ (by have := hwf.head_lt; omega)
  depth_le := hwf.depth_le

theorem head_headUpdate {cq : LogicCq α} (hwf : cq.Wf) {n : ℕ} (hn : n ≤ cq.cqDepth) :
    (cq.headUpdate n).head = Ring.pos cq.cqDepth cq.head n := by
  have hhead := hwf.head_lt
  have hdepth := hwf.depth_le
  rw [headUpdate, Word.add_of_lt (by omega), Ring.pos]

theorem Wf.headUpdate {cq : LogicCq α} (hwf : cq.Wf) (n : ℕ) : (cq.headUpdate n).Wf where
  head_lt := Nat.mod_lt _ (by have := hwf.head_lt; omega)
  tail_lt := hwf.tail_lt
  depth_le := hwf.depth_le

theorem live_headUpdate {cq : LogicCq α} (hwf : cq.Wf) {n : ℕ} (hn : n ≤ cq.live) :
    (cq.headUpdate n).live = cq.live - n := by
  have hlt := hwf.live_lt
  rw [live, head_headUpdate hwf (by omega)]
  exact Ring.count_advance hwf.head_lt hwf.tail_lt hn

theorem content_prefix {cq : LogicCq α}
    (hle : Ring.count cq.cqDepth cq.head t ≤ cq.live) :
    ∃ rest, cq.content = cq.contentTo t ++ rest := by
  refine ⟨Ring.content cq.addr cq.cqDepth (Ring.pos cq.cqDepth cq.head
    (Ring.count cq.cqDepth cq.head t)) (cq.live - Ring.count cq.cqDepth cq.head t), ?_⟩
  rw [contentTo, ← Ring.content_add, Nat.add_sub_cancel' hle]
  rfl

theorem content_headUpdate_subset {cq : LogicCq α} (hwf : cq.Wf) {n : ℕ} (hn : n ≤ cq.live) :
    (cq.headUpdate n).content ⊆ cq.content := by
  have hlt := hwf.live_lt
  have hsplit := Ring.content_add (d := cq.cqDepth) (h := cq.head) cq.addr n (cq.live - n)
  rw [Nat.add_sub_cancel' hn] at hsplit
  rw [content_eq, content_eq, live_headUpdate hwf hn, head_headUpdate hwf (by omega), hsplit]
  exact List.subset_append_right _ _

theorem Wf.enque {cq : LogicCq α} (hwf : cq.Wf) (c : α) : (cq.enque c).2.Wf := by
  rw [LogicCq.enque]
  split
  · exact hwf
  · split
    · exact hwf
    · have hpub := hwf.enquePublish
      exact ⟨hpub.head_lt, hpub.tail_lt, hpub.depth_le⟩

theorem valid_enque (cq : LogicCq α) (c : α) : (cq.enque c).2.valid = cq.valid := by
  rw [LogicCq.enque]
  split
  · rfl
  · split <;> rfl

theorem nonMatchCopy_cases {cq : LogicCq α} (hwf : cq.Wf) (hne : ¬ cq.isEmpty) (uncopied : ℕ) :
    (uncopied ≠ 0 ∧ cq.nonMatchCopy uncopied = (.error (.uncopied uncopied), cq)) ∨
      ∃ cqes, cq.nonMatchCopy uncopied = (.ok cqes, cq) ∧ cqes.length ≤ cq.live := by
  have hhead := hwf.head_lt
  have htail := hwf.tail_lt
  have hdepth := hwf.depth_le
  rw [nonMatchCopy]
  split
  · next hfault => exact .inl ⟨hfault, rfl⟩
  · refine .inr ⟨_, rfl, ?_⟩
    rw [Ring.length_slice, live]
    split
    · next hgt => rw [Word.sub_of_le hgt.le (by omega), Ring.count_of_le hgt.le htail]
    · next hle =>
        have hlt : cq.tail < cq.head := by
          rw [isEmpty] at hne
          omega
        rw [Word.sub_of_le hhead.le (by omega), Ring.count_of_gt hlt hhead]
        omega

/-! ## Closing the hole -/

/-- The slots that a move reads or writes hold some of the first `k` entries. -/
def Move.Within (m : Move) (d h k : ℕ) : Prop :=
  ∀ p, (m.srcPos ≤ p ∧ p < m.srcPos + m.num) ∨ (m.dstPos ≤ p ∧ p < m.dstPos + m.num) →
    p < d ∧ Ring.count d h p < k

/-- The memory after the calls of `trs_logic_cq_move_cqes`. -/
def blitAll (addr : ℕ → α) (moves : List Move) : ℕ → α :=
  moves.foldl (fun addr m => Ring.blit addr m.srcPos m.dstPos m.num) addr

theorem moveAll_eq (cq : LogicCq α) (moves : List Move) :
    cq.moveAll moves = { cq with addr := blitAll cq.addr moves } := by
  induction moves generalizing cq with
  | nil => rfl
  | cons m moves ih => exact ih (cq.moveCqes m)

/-- A slot behind the first `k` entries may be written before the moves. -/
theorem blitAll_update {moves : List Move} (hmoves : ∀ m ∈ moves, m.Within d h k)
    (addr : ℕ → α) (c : α) {p : ℕ} (hp : k ≤ Ring.count d h p) :
    blitAll (Function.update addr p c) moves = Function.update (blitAll addr moves) p c := by
  induction moves generalizing addr with
  | nil => rfl
  | cons m moves ih =>
      have hm := hmoves m List.mem_cons_self p
      have hout : ¬ (Ring.count d h p < k) := by omega
      have hsrc : p < m.srcPos ∨ m.srcPos + m.num ≤ p := by grind
      have hdst : p < m.dstPos ∨ m.dstPos + m.num ≤ p := by grind
      have hstep := Ring.blit_update addr c hsrc hdst
      simp only [blitAll, List.foldl_cons, hstep]
      exact ih (fun m hm => hmoves m (List.mem_cons_of_mem _ hm)) _

/-- What closing a hole of `cnt` entries behind `off` skipped ones does to the
memory: the skipped entries move up and the later ones stay. -/
structure Closes (m m' : ℕ → α) (d h off cnt : ℕ) : Prop where
  skipped : ∀ i < off, m' (Ring.pos d h (cnt + i)) = m (Ring.pos d h i)
  later : ∀ i, off + cnt ≤ i → i < d → m' (Ring.pos d h i) = m (Ring.pos d h i)

theorem Closes.content_eq {m m' : ℕ → α} {off cnt rest : ℕ} (hc : Closes m m' d h off cnt)
    (hlt : off + cnt + rest ≤ d) :
    Ring.content m' d (Ring.pos d h cnt) (off + rest) =
      Ring.content m d h off ++ Ring.content m d (Ring.pos d h (off + cnt)) rest := by
  rw [Ring.content_add]
  congr 1
  · apply Ring.content_congr
    intro i hi
    rw [Ring.pos_pos]
    exact hc.skipped i hi
  · rw [Ring.pos_pos, Nat.add_comm cnt off]
    apply Ring.content_congr
    intro i hi
    rw [Ring.pos_pos]
    exact hc.later _ (by omega) (by omega)

/-- Without a wrap one move shifts the skipped entries. -/
theorem closes_straight (m : ℕ → α) {off cnt : ℕ} (hd : d ≤ 65536) (hcnt : 0 < cnt)
    (hfit : h + off + cnt ≤ d) :
    Closes m (blitAll m (holeMoves d h (h + off) cnt false)) d h off cnt := by
  have hmem : blitAll m (holeMoves d h (h + off) cnt false) = Ring.blit m h (h + cnt) off := by
    simp only [holeMoves, Bool.false_eq_true, if_false]
    rw [Word.sub_of_le (by omega) (by omega), Word.add_of_lt (by omega),
      Nat.add_sub_cancel_left]
    split
    · rfl
    · next hoff =>
        obtain rfl : off = 0 := by omega
        rfl
  rw [hmem]
  constructor
  · intro i hi
    rw [Ring.pos_of_lt (by omega), Ring.pos_of_lt (by omega), ← Nat.add_assoc,
      Ring.blit_apply m (by omega) hi]
  · intro i hge hi
    apply Ring.blit_of_not_mem
    rcases Nat.lt_or_ge (h + i) d with hlt | hge'
    · rw [Ring.pos_of_lt hlt]
      omega
    · rw [Ring.pos_of_ge hge' (by omega)]
      omega

/-- The moves across the wrap, as copies of slots; a copy of no slot does nothing. -/
theorem blitAll_rollback (m : ℕ → α) {start : ℕ} (hd : d ≤ 65536) (hh : h < d)
    (hfit : start + cnt < h) :
    blitAll m (holeMoves d h start cnt true) =
      Ring.blit (Ring.blit (Ring.blit m 0 cnt start)
        (d - min cnt (d - h)) (cnt - min cnt (d - h)) (min cnt (d - h)))
        h (d - (d - h - min cnt (d - h))) (d - h - min cnt (d - h)) := by
  have hsub : Word.sub 32 d h = d - h := Word.sub_of_le hh.le (by omega)
  simp only [holeMoves, if_true, hsub]
  rw [Word.add_of_lt (by omega), Nat.zero_add]
  generalize hn₂ : min cnt (d - h) = n₂
  rw [Word.sub_of_le (by omega : n₂ ≤ d - h) (by omega),
    Word.sub_of_le (by omega : n₂ ≤ d) (by omega), Word.sub_of_le (by omega : n₂ ≤ cnt) (by omega)]
  generalize hn₃ : d - h - n₂ = n₃
  rw [Word.sub_of_le (by omega : n₃ ≤ d) (by omega)]
  rcases Nat.eq_zero_or_pos start with rfl | hstart <;>
    rcases Nat.eq_zero_or_pos n₃ with hzero | hpos
  · simp [hzero, blitAll, Ring.blit]
  · simp [hpos.ne', blitAll, Ring.blit]
  · simp [hstart.ne', hzero, blitAll, Ring.blit]
  · simp [hstart.ne', hpos.ne', blitAll]

theorem closes_rollback (m : ℕ → α) (start : ℕ) (hd : d ≤ 65536) (hh : h < d)
    (hfit : start + cnt < h) :
    Closes m (blitAll m (holeMoves d h start cnt true)) d h (d - h + start) cnt := by
  rw [blitAll_rollback m hd hh hfit]
  generalize hn₂ : min cnt (d - h) = n₂
  generalize hn₃ : d - h - n₂ = n₃
  have hfirst : ∀ p, p < cnt ∨ cnt + start ≤ p → Ring.blit m 0 cnt start p = m p :=
    fun p hp => Ring.blit_of_not_mem _ _ _ _ hp
  constructor
  · intro i hi
    rcases Nat.lt_or_ge i (d - h) with hlow | hhigh
    · rw [Ring.pos_of_lt (show h + i < d by omega)]
      rcases Nat.lt_or_ge i n₃ with hin | hin
      · -- the third move
        have hpos : Ring.pos d h (cnt + i) = d - n₃ + i := by
          rw [Ring.pos_of_lt (by omega)]
          omega
        rw [hpos, Ring.blit_apply _ (by omega) hin, Ring.blit_of_not_mem _ _ _ _ (by omega)]
        exact hfirst _ (by omega)
      · -- the second move
        have hpos : Ring.pos d h (cnt + i) = cnt - n₂ + (i - n₃) := by
          rw [Ring.pos_of_ge (by omega) (by omega)]
          omega
        rw [hpos, Ring.blit_of_not_mem _ _ _ _ (by omega),
          Ring.blit_apply _ (by omega) (by omega : i - n₃ < n₂), hfirst _ (by omega)]
        congr 1
        omega
    · -- the first move
      have hpos : Ring.pos d h (cnt + i) = cnt + (i - (d - h)) := by
        rw [Ring.pos_of_ge (by omega) (by omega)]
        omega
      rw [hpos, Ring.blit_of_not_mem _ _ _ _ (by omega), Ring.blit_of_not_mem _ _ _ _ (by omega),
        Ring.blit_apply _ (by omega) (by omega : i - (d - h) < start),
        Ring.pos_of_ge (by omega) (by omega)]
      congr 1
      omega
  · intro i hge hi
    rw [Ring.pos_of_ge (by omega) (by omega), Ring.blit_of_not_mem _ _ _ _ (by omega),
      Ring.blit_of_not_mem _ _ _ _ (by omega), hfirst _ (by omega)]

theorem closes_reportMoves (cq : LogicCq α) (hd : cq.cqDepth ≤ 65536) (hh : cq.head < cq.cqDepth)
    (hcnt : 0 < cnt) (hlt : off + cnt < cq.cqDepth)
    (hfit : Ring.pos cq.cqDepth cq.head off + cnt ≤ cq.cqDepth) :
    Closes cq.addr (blitAll cq.addr (cq.reportMoves (Ring.pos cq.cqDepth cq.head off) cnt
      (decide (cq.cqDepth ≤ cq.head + off)))) cq.cqDepth cq.head off cnt := by
  rw [reportMoves]
  rcases Nat.lt_or_ge (cq.head + off) cq.cqDepth with hin | hwrap
  · rw [Ring.pos_of_lt hin] at hfit ⊢
    rw [decide_eq_false (by omega)]
    split
    · exact closes_straight _ hd hcnt hfit
    · next hoff =>
        obtain rfl : off = 0 := by omega
        exact ⟨fun i hi => absurd hi (Nat.not_lt_zero i), fun i _ _ => rfl⟩
  · rw [Ring.pos_of_ge hwrap (by omega)] at hfit ⊢
    rw [decide_eq_true hwrap, if_pos (by omega)]
    have hclose := closes_rollback cq.addr (cq.head + off - cq.cqDepth) hd hh
      (by omega : cq.head + off - cq.cqDepth + cnt < cq.head)
    rwa [show cq.cqDepth - cq.head + (cq.head + off - cq.cqDepth) = off by omega] at hclose

/-! ## The slots that the moves touch -/

theorem count_lt_of {p : ℕ} (hh : h < d) (hp : p < d) (hge : h ≤ p → p - h < k)
    (hlt : p < h → p + d - h < k) : Ring.count d h p < k := by
  rcases Nat.lt_or_ge p h with hlow | hhigh
  · rw [Ring.count_of_gt hlow hh]
    exact hlt hlow
  · rw [Ring.count_of_le hhigh hp]
    exact hge hhigh

theorem within_straight (hd : d ≤ 65536) (hh : h < d) (hfit : h + off + cnt ≤ d) :
    ∀ m ∈ holeMoves d h (h + off) cnt false, m.Within d h (off + cnt) := by
  intro m hm
  simp only [holeMoves, Bool.false_eq_true, if_false] at hm
  rw [Word.sub_of_le (by omega) (by omega), Word.add_of_lt (by omega),
    Nat.add_sub_cancel_left] at hm
  split at hm
  · obtain rfl := List.mem_singleton.mp hm
    intro p hp
    dsimp only at hp
    have hpd : p < d := by omega
    exact ⟨hpd, count_lt_of hh hpd (by omega) (by omega)⟩
  · simp at hm

theorem within_rollback {start : ℕ} (hd : d ≤ 65536) (hh : h < d) (hfit : start + cnt < h) :
    ∀ m ∈ holeMoves d h start cnt true, m.Within d h (d - h + start + cnt) := by
  have hsub : Word.sub 32 d h = d - h := Word.sub_of_le hh.le (by omega)
  intro m hm p hp
  simp only [holeMoves, if_true, hsub] at hm
  rw [Word.add_of_lt (by omega), Nat.zero_add] at hm
  generalize hn₂ : min cnt (d - h) = n₂ at hm
  rw [Word.sub_of_le (by omega : n₂ ≤ d - h) (by omega),
    Word.sub_of_le (by omega : n₂ ≤ d) (by omega),
    Word.sub_of_le (by omega : n₂ ≤ cnt) (by omega)] at hm
  generalize hn₃ : d - h - n₂ = n₃ at hm
  rw [Word.sub_of_le (by omega : n₃ ≤ d) (by omega)] at hm
  have hbound : p < d ∧ (p < h → p < start + cnt) := by
    rcases List.mem_append.mp hm with hm | hm
    · split at hm
      · obtain rfl := List.mem_singleton.mp hm
        dsimp only at hp
        omega
      · simp at hm
    · rcases List.mem_cons.mp hm with rfl | hm
      · dsimp only at hp
        omega
      · split at hm
        · simp at hm
        · obtain rfl := List.mem_singleton.mp hm
          dsimp only at hp
          omega
  exact ⟨hbound.1, count_lt_of hh hbound.1 (by omega) (by omega)⟩

theorem within_reportMoves (cq : LogicCq α) (hd : cq.cqDepth ≤ 65536)
    (hh : cq.head < cq.cqDepth) (hlt : off + cnt < cq.cqDepth)
    (hfit : Ring.pos cq.cqDepth cq.head off + cnt ≤ cq.cqDepth) :
    ∀ m ∈ cq.reportMoves (Ring.pos cq.cqDepth cq.head off) cnt
      (decide (cq.cqDepth ≤ cq.head + off)), m.Within cq.cqDepth cq.head (off + cnt) := by
  intro m hm
  rw [reportMoves] at hm
  split at hm
  · rcases Nat.lt_or_ge (cq.head + off) cq.cqDepth with hin | hwrap
    · rw [Ring.pos_of_lt hin] at hfit hm
      rw [decide_eq_false (by omega)] at hm
      exact within_straight hd hh hfit m hm
    · rw [Ring.pos_of_ge hwrap (by omega)] at hfit hm
      rw [decide_eq_true hwrap] at hm
      have hm := within_rollback hd hh (by omega) m hm
      rwa [show cq.cqDepth - cq.head + (cq.head + off - cq.cqDepth) = off by omega] at hm
  · simp at hm

end OpiaiKernel.Trs.LogicCq
