import OpiaiKernel.Lib.SortedSplit
import OpiaiKernel.UserCfg.Compaction
import OpiaiKernel.UserCfg.FreeSpace

/-!
# What the searches find

The place that a search finds overlaps no valid item.  The search for gaps takes
the first block in which the item fits, and there it may end at the end of the
block, where no head is accepted.
-/

namespace OpiaiKernel.UserCfg

variable {bd : Build} {sha : Sha256} {content : Copy → ℕ → Block}
  {used : ℕ → UcBlkUsedInfo} {heads : List UcCfgHead} {hb : HeadBlk}
  {m : ItemName → Option (List UInt8)} {want : ℕ} {room : Room}

/-- The room is in a content block and overlaps no item of the table. -/
structure Room.Sound (bd : Build) (heads : List UcCfgHead) (want : ℕ) (room : Room) : Prop where
  blk : room.blkOffset ∈ bd.contentBlks
  stop_le : room.itemOffset + want ≤ DEVDRV_FLASH_BLOCK_SIZE
  apart : ∀ a ∈ heads, a.blkOffset = room.blkOffset →
    Span.Apart ⟨room.itemOffset, want⟩ a.span
  counted : bd.compactSpace = false →
    ((room.usedInfo room.blkOffset).used = true ∧
      room.itemOffset + want ≤ (room.usedInfo room.blkOffset).usedLen) ∧
    ∀ a ∈ heads, (room.usedInfo a.blkOffset).used = true ∧
      a.span.stop ≤ (room.usedInfo a.blkOffset).usedLen
  bounded : ∀ i, (room.usedInfo i).usedLen < DEVDRV_FLASH_BLOCK_SIZE

theorem update_usedLen_lt (hused : ∀ i, (used i).usedLen < DEVDRV_FLASH_BLOCK_SIZE) (i len j : ℕ) :
    (Function.update used i { used i with usedLen := len % 2 ^ 16 } j).usedLen <
      DEVDRV_FLASH_BLOCK_SIZE := by
  by_cases hj : j = i
  · rw [hj, Function.update_self]
    exact Nat.mod_lt _ (by decide)
  · rw [Function.update_of_ne hj]
    exact hused j

/-! ## By the used length -/

theorem countedSpace_sound {is : List ℕ} (hl : Layout bd sha content used heads m)
    (hcompact : bd.compactSpace = false) (hwant : want < DEVDRV_FLASH_BLOCK_SIZE)
    (his : ∀ i ∈ is, i ∈ bd.contentBlks) (hfound : countedSpace used want is = some room) :
    room.Sound bd heads want ∧ room.itemOffset + want < DEVDRV_FLASH_BLOCK_SIZE := by
  have hcounted := hl.counted hcompact
  induction is with
  | nil => exact absurd hfound (by simp [countedSpace])
  | cons i is ih =>
      have hblk := his i List.mem_cons_self
      have hlen := hl.bounded i
      have hmod : want % 65536 = want := Nat.mod_eq_of_lt hwant
      rw [countedSpace] at hfound
      split at hfound
      · next hused =>
          split at hfound
          · next hfree =>
              obtain rfl := Option.some.inj hfound
              have hfit : ((used i).usedLen + want) % 65536 = (used i).usedLen + want := by
                apply Nat.mod_eq_of_lt
                have : DEVDRV_FLASH_BLOCK_SIZE = 65536 := rfl
                omega
              refine ⟨⟨hblk, by simp only; omega, ?_, fun _ => ⟨?_, ?_⟩, ?_⟩, by simp only; omega⟩
              · intro a ha heq
                have := (hcounted a ha).2
                rw [show a.blkOffset = i from heq] at this
                exact .inr this
              · simp [hused, hfit]
              · intro a ha
                obtain ⟨hu, hs⟩ := hcounted a ha
                by_cases heq : a.blkOffset = i
                · rw [heq] at hs ⊢
                  simp only [Function.update_self, Nat.reducePow, hused, hfit, true_and]
                  omega
                · simp [Function.update_of_ne heq, hu, hs]
              · exact update_usedLen_lt hl.bounded i _
          · exact ih (fun j hj => his j (List.mem_cons_of_mem i hj)) hfound
      · next hused =>
          obtain rfl := Option.some.inj hfound
          have hno : ∀ a ∈ heads, a.blkOffset ≠ i := by
            rintro a ha rfl
            exact hused (hcounted a ha).1
          refine ⟨⟨hblk, by simp only; omega, ?_, fun _ => ⟨?_, ?_⟩, ?_⟩, by simp only; omega⟩
          · exact fun a ha heq => absurd heq (hno a ha)
          · simp [hmod]
          · intro a ha
            simpa [Function.update_of_ne (hno a ha)] using hcounted a ha
          · intro j
            by_cases hj : j = i
            · simpa [hj, hmod] using hwant
            · simpa [Function.update_of_ne hj] using hl.bounded j

theorem countedSpace_complete {is : List ℕ} {i : ℕ} (hi : i ∈ is)
    (hfit : (used i).usedLen + want < DEVDRV_FLASH_BLOCK_SIZE) :
    ∃ room, countedSpace used want is = some room := by
  induction is with
  | nil => exact absurd hi (by simp)
  | cons j is ih =>
      rw [countedSpace]
      rcases List.mem_cons.mp hi with rfl | hi
      · split
        · rw [if_pos (by omega)]
          exact ⟨_, rfl⟩
        · exact ⟨_, rfl⟩
      · split
        · split
          · exact ⟨_, rfl⟩
          · exact ih hi
        · exact ⟨_, rfl⟩

/-! ## By the gaps -/

theorem itemLe_iff (a b : UcCfgItemInfo) : ItemLe a b ↔
    a.blkOffset < b.blkOffset ∨ a.blkOffset = b.blkOffset ∧ a.startOffset ≤ b.startOffset := by
  unfold ItemLe itemCompare
  split <;> omega

instance : Std.Total ItemLe where
  total a b := by
    rw [itemLe_iff, itemLe_iff]
    omega

instance : IsTrans UcCfgItemInfo ItemLe where
  trans a b c := by
    rw [itemLe_iff, itemLe_iff, itemLe_iff]
    omega

/-- Items in the order of the search: by their blocks, and in a block one behind the
other. -/
structure Lined (items : List UcCfgItemInfo) : Prop where
  blks : items.Pairwise fun a b => a.blkOffset ≤ b.blkOffset
  behind : items.Pairwise fun a b => a.blkOffset = b.blkOffset → a.endOffset ≤ b.startOffset
  inside : ∀ a ∈ items, UC_ITEM_CONTENT_BLK_START ≤ a.blkOffset ∧
    a.startOffset ≤ a.endOffset ∧ a.endOffset < DEVDRV_FLASH_BLOCK_SIZE

theorem mem_sortedItems {a : UcCfgItemInfo} :
    a ∈ sortedItems heads ↔ ∃ h ∈ heads.filter UcCfgHead.validFlg, itemInfo h = a := by
  rw [sortedItems, List.mem_insertionSort, List.mem_map]

theorem lined_sortedItems
    (hl : Layout bd sha content used (heads.filter UcCfgHead.validFlg) m) :
    Lined (sortedItems heads) := by
  have hsorted : (sortedItems heads).Pairwise ItemLe := List.pairwise_insertionSort _ _
  have hinside : ∀ a ∈ sortedItems heads, UC_ITEM_CONTENT_BLK_START ≤ a.blkOffset ∧
      a.startOffset < a.endOffset ∧ a.endOffset < DEVDRV_FLASH_BLOCK_SIZE := by
    intro a ha
    obtain ⟨h, hh, rfl⟩ := mem_sortedItems.mp ha
    have hfit := hl.fits h hh
    exact ⟨(mem_contentBlks.mp hfit.blk).1, by
      have := hfit.bytes_pos
      simp only [itemInfo]
      omega, hfit.stop_lt⟩
  have hapart : (sortedItems heads).Pairwise fun a b => a.blkOffset = b.blkOffset →
      a.endOffset ≤ b.startOffset ∨ b.endOffset ≤ a.startOffset := by
    refine (List.perm_insertionSort _ _).symm.pairwise (List.pairwise_map.mpr ?_) ?_
    · refine hl.apart.imp fun hab heq => ?_
      have := hab heq
      simp only [Span.Apart, Span.stop, UcCfgHead.span] at this
      simp only [itemInfo]
      omega
    · intro a b hab heq
      exact (hab heq.symm).symm
  refine ⟨hsorted.imp fun {a b} hab => ?_, ?_, fun a ha => ?_⟩
  · rw [itemLe_iff] at hab
    omega
  · have hboth := List.Pairwise.and_mem.mp (hsorted.and hapart)
    refine hboth.imp fun {a b} hab heq => ?_
    obtain ⟨ha, hb, hle, hap⟩ := hab
    have hain := hinside a ha
    have hbin := hinside b hb
    rw [itemLe_iff] at hle
    rcases hap heq with hap | hap <;> omega
  · obtain ⟨hblk, hlt, hend⟩ := hinside a ha
    exact ⟨hblk, hlt.le, hend⟩

theorem u32Sub_eq {a b : ℕ} (hba : b ≤ a) (ha : a ≤ DEVDRV_FLASH_BLOCK_SIZE) :
    u32Sub a b = a - b := by
  have hsize : DEVDRV_FLASH_BLOCK_SIZE = 65536 := rfl
  rw [u32Sub, show a + 2 ^ 32 - b = (a - b) + 2 ^ 32 by omega, Nat.add_mod_right,
    Nat.mod_eq_of_lt (by omega)]

/-- What a scan of the items of one block finds. -/
inductive Scanned (want pre : ℕ) (items : List UcCfgItemInfo) : ℕ ⊕ ℕ → Prop
  | gap (off : ℕ) (ge : pre ≤ off)
      (clear : ∀ a ∈ items, off + want ≤ a.startOffset ∨ a.endOffset ≤ off)
      (before : ∃ a ∈ items, off + want ≤ a.startOffset) : Scanned want pre items (.inl off)
  | last (stop : ℕ) (ge : pre ≤ stop) (behind : ∀ a ∈ items, a.endOffset ≤ stop)
      (edge : stop = pre ∨ ∃ a ∈ items, a.endOffset = stop) : Scanned want pre items (.inr stop)

theorem scanItems_spec {items : List UcCfgItemInfo} (pre : ℕ)
    (hbehind : items.Pairwise fun a b => a.endOffset ≤ b.startOffset)
    (hin : ∀ a ∈ items, pre ≤ a.startOffset ∧ a.startOffset ≤ a.endOffset ∧
      a.endOffset < DEVDRV_FLASH_BLOCK_SIZE) :
    Scanned want pre items (scanItems want pre items) := by
  induction items generalizing pre with
  | nil => exact .last pre (Nat.le_refl _) (by simp) (.inl rfl)
  | cons a items ih =>
      obtain ⟨ha, hbehind⟩ := List.pairwise_cons.mp hbehind
      obtain ⟨hpre, hse, hend⟩ := hin a List.mem_cons_self
      rw [scanItems, u32Sub_eq hpre (by omega)]
      split
      · next hgap =>
          refine .gap pre (Nat.le_refl _) (fun b hb => .inl ?_) ⟨a, List.mem_cons_self, by omega⟩
          rcases List.mem_cons.mp hb with rfl | hb
          · omega
          · have := ha b hb
            omega
      · have hrest := ih a.endOffset hbehind fun b hb =>
          ⟨ha b hb, (hin b (List.mem_cons_of_mem a hb)).2⟩
        generalize scanItems want a.endOffset items = r at hrest
        cases hrest with
        | gap off ge clear before =>
            obtain ⟨b, hb, hle⟩ := before
            refine .gap off (by omega) (fun c hc => ?_) ⟨b, List.mem_cons_of_mem a hb, hle⟩
            rcases List.mem_cons.mp hc with rfl | hc
            · exact .inr ge
            · exact clear c hc
        | last stop ge behind edge =>
            refine .last stop (by omega) (fun c hc => ?_) (.inr ?_)
            · rcases List.mem_cons.mp hc with rfl | hc
              · exact ge
              · exact behind c hc
            · rcases edge with rfl | ⟨b, hb, heq⟩
              · exact ⟨a, List.mem_cons_self, rfl⟩
              · exact ⟨b, List.mem_cons_of_mem a hb, heq⟩

/-- A place between the items of a block or behind them. -/
structure Gap (items : List UcCfgItemInfo) (want : ℕ) (room : Room) : Prop where
  stop_le : room.itemOffset + want ≤ DEVDRV_FLASH_BLOCK_SIZE
  clear : ∀ a ∈ items, a.blkOffset = room.blkOffset →
    room.itemOffset + want ≤ a.startOffset ∨ a.endOffset ≤ room.itemOffset
  edge : room.itemOffset + want < DEVDRV_FLASH_BLOCK_SIZE ∨
    ∃ a ∈ items, a.blkOffset = room.blkOffset ∧ a.endOffset = room.itemOffset
  bounded : ∀ i, (room.usedInfo i).usedLen < DEVDRV_FLASH_BLOCK_SIZE

theorem Lined.at_block {items : List UcCfgItemInfo} (hl : Lined items) (want i : ℕ) :
    Scanned want 0 (items.filter fun a => a.blkOffset = i)
      (scanItems want 0 (items.filter fun a => a.blkOffset = i)) := by
  have hbehind : (items.filter fun a => a.blkOffset = i).Pairwise fun a b =>
      a.endOffset ≤ b.startOffset := by
    rw [List.pairwise_filter]
    refine hl.behind.imp fun {a b} hab ha hb => hab ?_
    simp only [decide_eq_true_eq] at ha hb
    exact ha.trans hb.symm
  exact scanItems_spec 0 hbehind fun a ha =>
    ⟨Nat.zero_le _, (hl.inside a (List.mem_of_mem_filter ha)).2⟩

/-- The search finds a gap, and the item does not fit behind the items of the blocks
before it. -/
theorem gapSpace_spec {items : List UcCfgItemInfo} {num : ℕ → ℕ} {i k : ℕ} (hl : Lined items)
    (hused : ∀ i, (used i).usedLen < DEVDRV_FLASH_BLOCK_SIZE)
    (hnum : ∀ i, num i = items.countP fun a => a.blkOffset = i)
    (hwant : want < DEVDRV_FLASH_BLOCK_SIZE) {r : Option Room}
    (hr : gapSpace items num used want (List.range' i k)
      (items.countP fun a => a.blkOffset < i) = r) :
    (∀ room, r = some room → room.blkOffset ∈ List.range' i k ∧ Gap items want room) ∧
      ∀ j ∈ List.range' i k, (∀ room, r = some room → j < room.blkOffset) →
        ∃ a ∈ items, a.blkOffset = j ∧ DEVDRV_FLASH_BLOCK_SIZE < a.endOffset + want := by
  induction k generalizing i with
  | zero =>
      subst hr
      simp [gapSpace]
  | succ k ih =>
      have hself : i ∈ List.range' i (k + 1) := by simp
      have hle : ∀ j ∈ List.range' i (k + 1), i ≤ j := fun j hj => (List.mem_range'_1.mp hj).1
      -- the search stops in block `i`, which no block of the list precedes
      have hstop : ∀ room, r = some room → room.blkOffset = i → Gap items want room →
          (∀ room, r = some room → room.blkOffset ∈ List.range' i (k + 1) ∧ Gap items want room) ∧
          ∀ j ∈ List.range' i (k + 1), (∀ room, r = some room → j < room.blkOffset) →
            ∃ a ∈ items, a.blkOffset = j ∧ DEVDRV_FLASH_BLOCK_SIZE < a.endOffset + want := by
        rintro room rfl rfl hgap
        refine ⟨fun room' heq => ?_, fun j hj hlt => ?_⟩
        · obtain rfl := Option.some.inj heq
          exact ⟨hself, hgap⟩
        · have := hlt room rfl
          have := hle j hj
          omega
      rw [List.range'_succ, gapSpace, hnum i, SortedSplit.drop_take hl.blks] at hr
      split at hr
      · next hzero =>
          have hno : ∀ a ∈ items, a.blkOffset ≠ i := by
            simpa [List.countP_eq_zero] using hzero
          exact hstop _ hr.symm rfl ⟨by simp only; omega, fun a ha heq => absurd heq (hno a ha),
            .inl (by simp only; omega), update_usedLen_lt hused i want⟩
      · have hscan := hl.at_block want i
        generalize scanItems want 0 (items.filter fun a => a.blkOffset = i) = s at hscan hr
        have hmem : ∀ a ∈ items, a.blkOffset = i → a ∈ items.filter fun a => a.blkOffset = i :=
          fun a ha heq => List.mem_filter.mpr ⟨ha, by simpa using heq⟩
        cases hscan with
        | gap off ge clear before =>
            obtain ⟨a, ha, hbefore⟩ := before
            have hin := hl.inside a (List.mem_of_mem_filter ha)
            exact hstop _ hr.symm rfl ⟨by simp only; omega,
              fun b hb heq => clear b (hmem b hb heq), .inl (by simp only; omega), hused⟩
        | last stop ge behind edge =>
            have hstop_le : stop ≤ DEVDRV_FLASH_BLOCK_SIZE := by
              rcases edge with rfl | ⟨a, ha, rfl⟩
              · exact Nat.zero_le _
              · exact (hl.inside a (List.mem_of_mem_filter ha)).2.2.le
            simp only [u32Sub_eq hstop_le (Nat.le_refl _)] at hr
            split at hr
            · next hfit =>
                refine hstop _ hr.symm rfl ⟨by simp only; omega,
                  fun b hb heq => .inr (behind b (hmem b hb heq)), ?_,
                  update_usedLen_lt hused i (stop + 1 + want)⟩
                rcases edge with rfl | ⟨a, ha, rfl⟩
                · exact .inl (by simp only; omega)
                · exact .inr ⟨a, List.mem_of_mem_filter ha,
                    by simpa using List.of_mem_filter ha, rfl⟩
            · next hfull =>
                rw [SortedSplit.countP_lt_succ] at hr
                obtain ⟨hsome, hbefore⟩ := ih hr
                refine ⟨fun room heq => ?_, fun j hj hlt => ?_⟩
                · obtain ⟨hmem', hgap⟩ := hsome room heq
                  refine ⟨?_, hgap⟩
                  rw [List.range'_succ]
                  exact List.mem_cons_of_mem i hmem'
                · rw [List.range'_succ] at hj
                  rcases List.mem_cons.mp hj with rfl | hj
                  · rcases edge with rfl | ⟨a, ha, rfl⟩
                    · omega
                    · exact ⟨a, List.mem_of_mem_filter ha, by simpa using List.of_mem_filter ha,
                        by omega⟩
                  · exact hbefore j hj hlt

/-! ## Either search -/

theorem itemNumEachBlock_eq (i : ℕ) :
    itemNumEachBlock heads i = (sortedItems heads).countP fun a => a.blkOffset = i := by
  rw [sortedItems, (List.perm_insertionSort _ _).countP_eq, List.countP_map]
  rfl

/-- What the search for gaps finds, and what it does not find before. -/
theorem configFindFreeSpace_spec {n : ℕ}
    (hl : Layout bd sha content hb.usedInfo (hb.heads.filter UcCfgHead.validFlg) m)
    (hwant : wantLen n < DEVDRV_FLASH_BLOCK_SIZE) :
    (∀ room, configFindFreeSpace bd hb n = some room →
      room.blkOffset ∈ bd.contentBlks ∧ Gap (sortedItems hb.heads) (wantLen n) room) ∧
    ∀ j ∈ bd.contentBlks, (∀ room, configFindFreeSpace bd hb n = some room → j < room.blkOffset) →
      ∃ a ∈ hb.heads.filter UcCfgHead.validFlg, a.blkOffset = j ∧
        DEVDRV_FLASH_BLOCK_SIZE < a.span.stop + wantLen n := by
  have hlined := lined_sortedItems hl
  have hstart : 0 =
      (sortedItems hb.heads).countP fun a => a.blkOffset < UC_ITEM_CONTENT_BLK_START := by
    rw [eq_comm, List.countP_eq_zero]
    intro a ha
    simpa using (hlined.inside a ha).1
  have hspec := gapSpace_spec (k := bd.mainNum - UC_ITEM_CONTENT_BLK_START) hlined hl.bounded
    itemNumEachBlock_eq hwant (r := configFindFreeSpace bd hb n) (by
      rw [← hstart]
      rfl)
  refine ⟨hspec.1, fun j hj hbefore => ?_⟩
  obtain ⟨a, ha, hblk, hfull⟩ := hspec.2 j hj hbefore
  obtain ⟨h, hh, rfl⟩ := mem_sortedItems.mp ha
  refine ⟨h, hh, hblk, ?_⟩
  simp only [itemInfo] at hfull
  simp only [Span.stop, UcCfgHead.span]
  omega

theorem Gap.sound (hcompact : bd.compactSpace = true) (hblk : room.blkOffset ∈ bd.contentBlks)
    (hgap : Gap (sortedItems heads) want room) :
    room.Sound bd (heads.filter UcCfgHead.validFlg) want where
  blk := hblk
  stop_le := hgap.stop_le
  apart a ha heq := by
    have hclear := hgap.clear (itemInfo a) (mem_sortedItems.mpr ⟨a, ha, rfl⟩) heq
    simp only [itemInfo] at hclear
    simp only [Span.Apart, Span.stop, UcCfgHead.span]
    omega
  counted h := absurd h (by simp [hcompact])
  bounded := hgap.bounded

theorem Room.Sound.perm {heads' : List UcCfgHead} (hs : room.Sound bd heads want)
    (hp : heads.Perm heads') : room.Sound bd heads' want where
  blk := hs.blk
  stop_le := hs.stop_le
  apart a ha := hs.apart a (hp.mem_iff.mpr ha)
  counted hb := ⟨(hs.counted hb).1, fun a ha => (hs.counted hb).2 a (hp.mem_iff.mpr ha)⟩
  bounded := hs.bounded

/-- The search of the build; the search for gaps looks at the valid heads. -/
theorem configGetItemBlkInfo_sound {n : ℕ} (hl : Layout bd sha content hb.usedInfo heads m)
    (hlive : bd.compactSpace = true → (hb.heads.filter UcCfgHead.validFlg).Perm heads)
    (hwant : wantLen n < DEVDRV_FLASH_BLOCK_SIZE)
    (hfound : configGetItemBlkInfo bd hb n = some room) : room.Sound bd heads (wantLen n) := by
  rw [configGetItemBlkInfo] at hfound
  split at hfound
  · next hcompact =>
      have hp := hlive hcompact
      have hl' := hl.perm hp.symm
      obtain ⟨hblk, hgap⟩ := (configFindFreeSpace_spec hl' hwant).1 room hfound
      exact (hgap.sound hcompact hblk).perm hp
  · next hcompact =>
      exact (countedSpace_sound hl (by simpa using hcompact) hwant (fun _ hi => hi) hfound).1

/-! ## After a rebuild -/

/-- In some block the items leave more room than is wanted; the search for gaps must not
come before to a block where they leave just as much. -/
def HasRoom (bd : Build) (heads : List UcCfgHead) (want : ℕ) : Prop :=
  ∃ i ∈ bd.contentBlks, blkLoad heads i + want < DEVDRV_FLASH_BLOCK_SIZE ∧
    (bd.compactSpace = true → ∀ j ∈ bd.contentBlks, j < i →
      DEVDRV_FLASH_BLOCK_SIZE < blkLoad heads j + want)

/-- The room and the items of its block fit together into what they all end in. -/
theorem Room.Sound.blkLoad_le {N : ℕ} (hs : room.Sound bd heads want)
    (hl : Layout bd sha content used heads m) (hstop : room.itemOffset + want ≤ N)
    (hN : DEVDRV_FLASH_BLOCK_SIZE ≤ N + 1) : blkLoad heads room.blkOffset + want ≤ N := by
  rw [blkLoad_eq_total]
  have htotal : Span.total (⟨room.itemOffset, want⟩ :: (heads.filter fun h =>
      h.blkOffset = room.blkOffset ∧ h.validFlg).map UcCfgHead.span) ≤ N := by
    refine Span.total_le_of_apart (List.pairwise_cons.mpr ⟨?_, hl.apart_at room.blkOffset⟩) ?_
    · intro s hs'
      obtain ⟨a, ha, rfl⟩ := List.mem_map.mp hs'
      obtain ⟨ha, hin⟩ := List.mem_filter.mp ha
      simp only [decide_eq_true_eq] at hin
      exact hs.apart a ha hin.1
    · intro s hs'
      rcases List.mem_cons.mp hs' with rfl | hs'
      · exact hstop
      · have := hl.stop_lt_at hs'
        omega
  rw [Span.total_cons] at htotal
  simp only at htotal
  omega

theorem configGetItemBlkInfo_complete {n : ℕ}
    (hl : Layout bd sha content hb.usedInfo (hb.heads.filter UcCfgHead.validFlg) m)
    (hwant : wantLen n < DEVDRV_FLASH_BLOCK_SIZE)
    (hfront : ∀ a ∈ hb.heads.filter UcCfgHead.validFlg,
      a.span.stop ≤ blkLoad hb.heads a.blkOffset)
    (hused : ∀ i ∈ bd.contentBlks, (hb.usedInfo i).usedLen = blkLoad hb.heads i)
    (hroom : HasRoom bd hb.heads (wantLen n)) :
    ∃ room, configGetItemBlkInfo bd hb n = some room ∧
      room.itemOffset + wantLen n < DEVDRV_FLASH_BLOCK_SIZE := by
  obtain ⟨i, hi, hlt, hfirst⟩ := hroom
  rw [configGetItemBlkInfo]
  split
  · next hcompact =>
      obtain ⟨hsome, hbefore⟩ := configFindFreeSpace_spec hl hwant
      have hstops : ∀ j ∈ bd.contentBlks,
          blkLoad hb.heads j + wantLen n ≤ DEVDRV_FLASH_BLOCK_SIZE →
          ∃ room, configFindFreeSpace bd hb n = some room ∧ room.blkOffset ≤ j := by
        intro j hj hle
        by_contra hno
        obtain ⟨a, ha, hblk, hfull⟩ := hbefore j hj fun room heq => by
          by_contra hge
          exact hno ⟨room, heq, by omega⟩
        have := hfront a ha
        rw [hblk] at this
        omega
      obtain ⟨room, hfound, hle⟩ := hstops i hi hlt.le
      obtain ⟨hblk, hgap⟩ := hsome room hfound
      have hload := (hgap.sound hcompact hblk).blkLoad_le hl hgap.stop_le (Nat.le_succ _)
      rw [blkLoad_filter] at hload
      have heq : room.blkOffset = i := by
        by_contra hne
        have := hfirst hcompact room.blkOffset hblk (by omega)
        omega
      refine ⟨room, hfound, ?_⟩
      rcases hgap.edge with hedge | ⟨a, ha, hablk, hend⟩
      · exact hedge
      · obtain ⟨h, hh, rfl⟩ := mem_sortedItems.mp ha
        have hstop := hfront h hh
        simp only [itemInfo] at hablk hend
        simp only [Span.stop, UcCfgHead.span, hablk, heq] at hstop
        omega
  · next hcompact =>
      rw [← hused i hi] at hlt
      obtain ⟨room, hfound⟩ := countedSpace_complete hi hlt
      exact ⟨room, hfound, (countedSpace_sound hl (by simpa using hcompact) hwant
        (fun _ hi => hi) hfound).2⟩

/-- What a search finds before the end of a block is room. -/
theorem hasRoom_of_found {n : ℕ}
    (hl : Layout bd sha content hb.usedInfo (hb.heads.filter UcCfgHead.validFlg) m)
    (hwant : wantLen n < DEVDRV_FLASH_BLOCK_SIZE)
    (hfront : ∀ a ∈ hb.heads.filter UcCfgHead.validFlg,
      a.span.stop ≤ blkLoad hb.heads a.blkOffset)
    (hfound : configGetItemBlkInfo bd hb n = some room)
    (hlt : room.itemOffset + wantLen n < DEVDRV_FLASH_BLOCK_SIZE) :
    HasRoom bd hb.heads (wantLen n) := by
  have hs := configGetItemBlkInfo_sound hl (fun _ => List.Perm.refl _) hwant hfound
  refine ⟨room.blkOffset, hs.blk, ?_, fun hcompact j hj hlt' => ?_⟩
  · have hload := hs.blkLoad_le hl (Nat.le_sub_one_of_lt hlt) (by omega)
    rw [blkLoad_filter] at hload
    omega
  · rw [configGetItemBlkInfo, if_pos hcompact] at hfound
    obtain ⟨a, ha, rfl, hfull⟩ := (configFindFreeSpace_spec hl hwant).2 j hj fun room' heq => by
      obtain rfl := Option.some.inj (hfound.symm.trans heq)
      exact hlt'
    have := hfront a ha
    omega

end OpiaiKernel.UserCfg
