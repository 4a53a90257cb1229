import OpiaiKernel.Lib.Related
import OpiaiKernel.UserCfg.Layout

/-!
# The rebuild keeps what the blocks hold

Synchronizing changes nothing while every valid item has its digest in both copies.
The rebuild moves the valid items of each block to its front, in the order of the
table, and what the heads say and the blocks hold stays the same.
-/

namespace OpiaiKernel.UserCfg

open Ring (slice fill)

variable {bd : Build} {sha : Sha256} {content content' : Copy → ℕ → Block}
  {used used' : ℕ → UcBlkUsedInfo} {heads heads' : List UcCfgHead} {a b h : UcCfgHead}
  {m : ItemName → Option (List UInt8)} {v : List UInt8} {fl : Flash} {hb : HeadBlk} {i : ℕ}

/-! ## Synchronizing -/

@[simp] theorem writeContent_self (c : Copy) : fl.writeContent c i (fl.content c i) = fl := by
  simp [Flash.writeContent]

theorem configSyncItemContent_eq {s : UcSyncInfo}
    (hstop : h.itemOffset + h.itemBytes + DEVDRV_SHA256_DIGEST < DEVDRV_FLASH_BLOCK_SIZE)
    (hmain : Stored sha s.mainBlk h v) (hbackup : Stored sha s.backupBlk h v) :
    configSyncItemContent sha s h = .ok (s, h) := by
  rw [configSyncItemContent, if_neg (by omega), if_pos hmain.cmp,
    if_pos (by rw [hmain.record, hbackup.record])]

theorem syncItems_eq {s : UcSyncInfo}
    (hs : ∀ h ∈ heads, h.blkOffset = i → h.validFlg = true → h.Fits bd ∧
      ∃ v, Stored sha s.mainBlk h v ∧ Stored sha s.backupBlk h v) :
    syncItems sha i s heads = .ok (s, heads) := by
  induction heads with
  | nil => rfl
  | cons h heads ih =>
      have hrest := ih fun a ha => hs a (List.mem_cons_of_mem h ha)
      rw [syncItems]
      by_cases hin : h.blkOffset = i ∧ h.validFlg = true
      · obtain ⟨hfit, v, hmain, hbackup⟩ := hs h List.mem_cons_self hin.1 hin.2
        rw [if_pos hin, configSyncItemContent_eq hfit.stop_lt hmain hbackup]
        simp [bind, Except.bind, hrest]
      · rw [if_neg hin]
        simp [bind, Except.bind, hrest]

theorem configSyncOneBlock_eq (hlen : hb.heads.length ≤ bd.headNumMax)
    (hl : Layout bd sha fl.content used (hb.heads.filter UcCfgHead.validFlg) m) (i : ℕ) :
    configSyncOneBlock bd sha i hb fl = (.ok hb, fl) := by
  have hs : ∀ h ∈ hb.heads, h.blkOffset = i → h.validFlg = true → h.Fits bd ∧
      ∃ v, Stored sha (fl.content .main i) h v ∧ Stored sha (fl.content .backup i) h v := by
    intro h hh hblk hvalid
    have hin : h ∈ hb.heads.filter UcCfgHead.validFlg := List.mem_filter.mpr ⟨hh, hvalid⟩
    obtain ⟨v, -, hv⟩ := hl.stored h hin
    exact ⟨hl.fits h hin, v, hblk ▸ hv .main, hblk ▸ hv .backup⟩
  rw [configSyncOneBlock, if_neg (by omega), syncItems_eq hs, andThen_ok]
  split <;> simp

theorem configSyncMainBackup_eq (hlen : hb.heads.length ≤ bd.headNumMax)
    (hl : Layout bd sha fl.content used (hb.heads.filter UcCfgHead.validFlg) m) (is : List ℕ) :
    configSyncMainBackup bd sha is hb fl = (.ok hb, fl) := by
  induction is with
  | nil => rfl
  | cons i is ih =>
      rw [configSyncMainBackup, configSyncOneBlock_eq hlen hl, andThen_ok, ih]

/-! ## Moving the items of a block -/

/-- How much the valid items of a block take. -/
def blkLoad (heads : List UcCfgHead) (i : ℕ) : ℕ :=
  (heads.map fun h => if h.blkOffset = i ∧ h.validFlg then h.span.size else 0).sum

@[simp] theorem blkLoad_cons (h : UcCfgHead) (heads : List UcCfgHead) (i : ℕ) :
    blkLoad (h :: heads) i =
      (if h.blkOffset = i ∧ h.validFlg then h.span.size else 0) + blkLoad heads i := by
  simp [blkLoad]

theorem blkLoad_perm (hp : heads.Perm heads') (i : ℕ) : blkLoad heads i = blkLoad heads' i :=
  (hp.map _).sum_eq

theorem blkLoad_filter (heads : List UcCfgHead) (i : ℕ) :
    blkLoad (heads.filter UcCfgHead.validFlg) i = blkLoad heads i := by
  induction heads with
  | nil => rfl
  | cons h heads ih =>
      rw [List.filter_cons, blkLoad_cons]
      split
      · rw [blkLoad_cons, ih]
      · next hvalid => rw [if_neg (by simp [hvalid]), ih, Nat.zero_add]

/-- Only the offset of a head changes, and that only if it is valid and of one of the
blocks. -/
def MovedIn (is : List ℕ) (a b : UcCfgHead) : Prop :=
  b = { a with itemOffset := b.itemOffset } ∧ (a.blkOffset ∉ is ∨ a.validFlg = false → b = a)

theorem MovedIn.frame {is : List ℕ} (hab : MovedIn is a b) :
    b.itemName = a.itemName ∧ b.blkOffset = a.blkOffset ∧ b.itemBytes = a.itemBytes ∧
      b.authorityFlg = a.authorityFlg ∧ b.validFlg = a.validFlg := by
  rw [hab.1]
  exact ⟨rfl, rfl, rfl, rfl, rfl⟩

theorem MovedIn.trans {is : List ℕ} {c : UcCfgHead} (hab : MovedIn [i] a b)
    (hbc : MovedIn is b c) : MovedIn (i :: is) a c := by
  obtain ⟨-, hblk, -, -, hvalid⟩ := hab.frame
  refine ⟨by rw [hbc.1, hab.1], fun hout => ?_⟩
  have hout' : (b.blkOffset ∉ is ∨ b.validFlg = false) ∧
      (a.blkOffset ∉ [i] ∨ a.validFlg = false) := by
    rw [hblk, hvalid]
    rcases hout with hout | hout
    · rw [List.mem_cons, not_or] at hout
      exact ⟨.inl hout.2, .inl (by simpa using hout.1)⟩
    · exact ⟨.inr hout, .inr hout⟩
  rw [hbc.2 hout'.1, hab.2 hout'.2]

theorem blkLoad_moved {is : List ℕ} (hrel : List.Forall₂ (MovedIn is) heads heads') (i : ℕ) :
    blkLoad heads i = blkLoad heads' i := by
  refine congrArg List.sum (hrel.map_eq fun a b hab => ?_)
  obtain ⟨-, hblk, hbytes, -, hvalid⟩ := hab.frame
  simp only [UcCfgHead.span, hblk, hbytes, hvalid]

/-- A head after the pass over block `i` that fills the new block from `lo` to `hi`. -/
structure Packed (old new : Block) (i lo hi : ℕ) (a b : UcCfgHead) : Prop where
  moved : MovedIn [i] a b
  place : a.blkOffset = i → a.validFlg = true →
    lo ≤ b.itemOffset ∧ b.span.stop ≤ hi ∧ itemRecord new b = itemRecord old a

/-- Valid heads of the block are behind one another. -/
def Behind (i : ℕ) (a b : UcCfgHead) : Prop :=
  (a.blkOffset = i ∧ a.validFlg = true) → (b.blkOffset = i ∧ b.validFlg = true) →
    a.span.stop ≤ b.itemOffset

theorem configMoveItemContent_eq (old : Block) (mv : Moved) (hfit : h.Fits bd)
    (hroom : mv.pos + h.span.size < DEVDRV_FLASH_BLOCK_SIZE) :
    configMoveItemContent bd old mv h =
      .ok (⟨fill mv.tmpBlk mv.pos (itemRecord old h), mv.pos + h.span.size⟩,
        { h with itemOffset := mv.pos }) := by
  simp only [UcCfgHead.span] at hroom ⊢
  rw [configMoveItemContent, if_neg (by omega), hfit.headCheck]
  simp only [bind, Except.bind]
  rw [if_neg (by omega)]

theorem length_itemRecord (old : Block) (h : UcCfgHead) :
    (itemRecord old h).length = h.span.size := by
  simp [itemRecord, slice, UcCfgHead.span]

theorem moveItems_spec (old : Block) (mv : Moved)
    (hfits : ∀ h ∈ heads, h.blkOffset = i → h.validFlg = true → h.Fits bd)
    (hroom : mv.pos + blkLoad heads i < DEVDRV_FLASH_BLOCK_SIZE) :
    ∃ mv' heads', moveItems bd old i mv heads = .ok (mv', heads') ∧
      mv'.pos = mv.pos + blkLoad heads i ∧ (∀ p < mv.pos, mv'.tmpBlk p = mv.tmpBlk p) ∧
      List.Forall₂ (Packed old mv'.tmpBlk i mv.pos mv'.pos) heads heads' ∧
      heads'.Pairwise (Behind i) := by
  induction heads generalizing mv with
  | nil => exact ⟨mv, [], rfl, rfl, fun _ _ => rfl, .nil, .nil⟩
  | cons h heads ih =>
      have hrest := fun a ha => hfits a (List.mem_cons_of_mem h ha)
      rw [blkLoad_cons] at hroom ⊢
      by_cases hin : h.blkOffset = i ∧ h.validFlg = true
      · rw [if_pos hin] at hroom ⊢
        have hmove := configMoveItemContent_eq old mv (hfits h List.mem_cons_self hin.1 hin.2)
          (by omega)
        obtain ⟨mv', heads', hrun, hpos, hlow, hrel, hpair⟩ :=
          ih ⟨fill mv.tmpBlk mv.pos (itemRecord old h), mv.pos + h.span.size⟩ hrest
            (by simp only; omega)
        simp only at hpos hlow hrel
        refine ⟨mv', { h with itemOffset := mv.pos } :: heads', ?_, by omega, ?_,
          .cons ⟨⟨rfl, ?_⟩, ?_⟩ (hrel.imp ?_), List.pairwise_cons.mpr ⟨?_, hpair⟩⟩
        · rw [moveItems, if_pos hin, hmove]
          simp [bind, Except.bind, hrun]
        · intro p hp
          rw [hlow p (by omega), Ring.fill_of_not_mem _ (.inl hp)]
        · rintro (hout | hout)
          · exact absurd hin.1 (by simpa using hout)
          · exact absurd hin.2 (by simp [hout])
        · refine fun _ _ => ⟨Nat.le_refl _, ?_, ?_⟩
          · simp only [Span.stop, UcCfgHead.span] at hpos ⊢
            omega
          · have hsame : itemRecord mv'.tmpBlk { h with itemOffset := mv.pos } =
                itemRecord (fill mv.tmpBlk mv.pos (itemRecord old h))
                  { h with itemOffset := mv.pos } :=
              Ring.slice_congr fun p hp =>
                hlow _ (by simp only [UcCfgHead.span] at hp ⊢; omega)
            rw [hsame, itemRecord]
            have hfill := Ring.slice_fill mv.tmpBlk mv.pos (itemRecord old h)
            rwa [length_itemRecord] at hfill
        · intro a b hab
          refine ⟨hab.moved, fun hblk hvalid => ?_⟩
          obtain ⟨hlo, hhi, hrec⟩ := hab.place hblk hvalid
          exact ⟨by omega, hhi, hrec⟩
        · intro b hb _ hbin
          obtain ⟨a, -, hab⟩ := hrel.exists_left hb
          obtain ⟨-, hblk, -, -, hvalid⟩ := hab.moved.frame
          exact (hab.place (hblk ▸ hbin.1) (hvalid ▸ hbin.2)).1
      · rw [if_neg hin] at hroom ⊢
        obtain ⟨mv', heads', hrun, hpos, hlow, hrel, hpair⟩ := ih mv hrest (by omega)
        refine ⟨mv', h :: heads', ?_, by omega, hlow,
          .cons ⟨⟨rfl, fun _ => rfl⟩, fun hblk hvalid => absurd ⟨hblk, hvalid⟩ hin⟩ hrel,
          List.pairwise_cons.mpr ⟨fun b _ ha => absurd ha hin, hpair⟩⟩
        rw [moveItems, if_neg hin]
        simp [bind, Except.bind, hrun]

/-! ## The layout after a move -/

theorem blkLoad_eq_total (heads : List UcCfgHead) (i : ℕ) : blkLoad heads i =
    Span.total ((heads.filter fun h => h.blkOffset = i ∧ h.validFlg).map UcCfgHead.span) := by
  induction heads with
  | nil => rfl
  | cons h heads ih =>
      rw [blkLoad_cons, List.filter_cons, ih]
      by_cases hin : h.blkOffset = i ∧ h.validFlg = true
      · simp [hin]
      · rw [if_neg hin, if_neg (by simpa using hin), Nat.zero_add]

theorem Layout.apart_at (hl : Layout bd sha content used heads m) (i : ℕ) :
    ((heads.filter fun h => h.blkOffset = i ∧ h.validFlg).map UcCfgHead.span).Pairwise
      Span.Apart := by
  rw [List.pairwise_map, List.pairwise_filter]
  refine hl.apart.imp fun hab ha hb => hab ?_
  simp only [decide_eq_true_eq] at ha hb
  exact ha.1.trans hb.1.symm

theorem Layout.stop_lt_at (hl : Layout bd sha content used heads m) {s : Span}
    (hs : s ∈ (heads.filter fun h => h.blkOffset = i ∧ h.validFlg).map UcCfgHead.span) :
    s.stop < DEVDRV_FLASH_BLOCK_SIZE := by
  obtain ⟨h, hh, rfl⟩ := List.mem_map.mp hs
  have := (hl.fits h (List.mem_of_mem_filter hh)).stop_lt
  simp only [Span.stop, UcCfgHead.span]
  omega

/-- The items of one block take less than the block. -/
theorem Layout.blkLoad_lt (hl : Layout bd sha content used heads m) (i : ℕ) :
    blkLoad heads i < DEVDRV_FLASH_BLOCK_SIZE := by
  have htotal := Span.total_le_of_apart (N := DEVDRV_FLASH_BLOCK_SIZE - 1) (hl.apart_at i)
    fun s hs => Nat.le_sub_one_of_lt (hl.stop_lt_at hs)
  rw [← blkLoad_eq_total] at htotal
  have : 0 < DEVDRV_FLASH_BLOCK_SIZE := by decide
  omega

/-- The information on the blocks after the items of block `i` fill `len` bytes of it. -/
def packedInfo (used : ℕ → UcBlkUsedInfo) (i len : ℕ) : ℕ → UcBlkUsedInfo :=
  Function.update used i { used i with usedLen := len % 2 ^ 16 }

theorem packedInfo_self {len : ℕ} (hlen : len < DEVDRV_FLASH_BLOCK_SIZE) :
    packedInfo used i len i = { used i with usedLen := len } := by
  have hmod : len % 2 ^ 16 = len := Nat.mod_eq_of_lt hlen
  rw [packedInfo, Function.update_self, hmod]

theorem Packed.fits {old new : Block} {lo hi : ℕ} (hab : Packed old new i lo hi a b)
    (ha : a.Fits bd) (hhi : hi < DEVDRV_FLASH_BLOCK_SIZE) : b.Fits bd := by
  obtain ⟨-, hblk, hbytes, hauth, hvalid⟩ := hab.moved.frame
  refine ⟨hvalid ▸ ha.valid, hblk ▸ ha.blk, hbytes ▸ ha.bytes_pos, hbytes ▸ ha.bytes_le, ?_,
    hauth ▸ ha.authority⟩
  by_cases hin : a.blkOffset = i
  · have hstop := (hab.place hin ha.valid).2.1
    simp only [Span.stop, UcCfgHead.span] at hstop
    omega
  · rw [hab.moved.2 (.inl (by simpa using hin))]
    exact ha.stop_lt

theorem Packed.apart {old new : Block} {lo hi : ℕ} {a' b' : UcCfgHead}
    (hab : Packed old new i lo hi a b) (hab' : Packed old new i lo hi a' b')
    (hvalid : a.validFlg = true) (hvalid' : a'.validFlg = true) (hapart : a.Apart a')
    (hbehind : Behind i b b') : b.Apart b' := by
  obtain ⟨-, hblk, -, -, hv⟩ := hab.moved.frame
  obtain ⟨-, hblk', -, -, hv'⟩ := hab'.moved.frame
  intro heq
  by_cases hin : a.blkOffset = i
  · have hin' : a'.blkOffset = i := by rw [← hblk', ← heq, hblk, hin]
    exact .inl (hbehind ⟨hblk ▸ hin, hv ▸ hvalid⟩ ⟨hblk' ▸ hin', hv' ▸ hvalid'⟩)
  · have hout : a'.blkOffset ≠ i := by rwa [← hblk', ← heq, hblk]
    rw [hab.moved.2 (.inl (by simpa using hin)), hab'.moved.2 (.inl (by simpa using hout))] at *
    exact hapart heq

/-- The layout after the items of block `i` moved to the front of a new block. -/
theorem Layout.packed {new : Block}
    (hl : Layout bd sha content used (heads.filter UcCfgHead.validFlg) m)
    (hrel : List.Forall₂ (Packed (content .main i) new i 0 (blkLoad heads i)) heads heads')
    (hpair : heads'.Pairwise (Behind i)) :
    Layout bd sha (fun c => Function.update (content c) i new)
      (packedInfo used i (blkLoad heads i)) (heads'.filter UcCfgHead.validFlg) m := by
  have hload : blkLoad heads i < DEVDRV_FLASH_BLOCK_SIZE :=
    blkLoad_filter heads i ▸ hl.blkLoad_lt i
  have hlive : List.Forall₂ (Packed (content .main i) new i 0 (blkLoad heads i))
      (heads.filter UcCfgHead.validFlg) (heads'.filter UcCfgHead.validFlg) :=
    hrel.filter fun a b hab => hab.moved.frame.2.2.2.2.symm
  constructor
  · intro b hb
    obtain ⟨a, ha, hab⟩ := hlive.exists_left hb
    exact hab.fits (hl.fits a ha) hload
  · have hnames := hlive.map_eq fun a b hab => hab.moved.frame.1.symm
    exact (congrArg List.Nodup hnames).mp hl.names
  · have hboth := List.Pairwise.and_mem.mp hl.apart
    refine hlive.pairwise (T := Behind i) hboth (hpair.filter _) ?_
    intro a a' b b' hab hab' haa' hbb'
    exact hab.apart hab' (hl.fits a haa'.1).valid (hl.fits a' haa'.2.1).valid haa'.2.2 hbb'
  · intro hcompact b hb
    obtain ⟨a, ha, hab⟩ := hlive.exists_left hb
    obtain ⟨hused, hstop⟩ := hl.counted hcompact a ha
    have hblk := hab.moved.frame.2.1
    by_cases hin : a.blkOffset = i
    · rw [hblk, hin, packedInfo_self hload]
      exact ⟨hin ▸ hused, (hab.place hin (hl.fits a ha).valid).2.1⟩
    · rw [hab.moved.2 (.inl (by simpa using hin)), packedInfo, Function.update_of_ne hin]
      exact ⟨hused, hstop⟩
  · intro j
    rw [packedInfo]
    by_cases hj : j = i
    · rw [hj, Function.update_self]
      exact Nat.mod_lt _ (by decide)
    · rw [Function.update_of_ne hj]
      exact hl.bounded j
  · intro b hb
    obtain ⟨a, ha, hab⟩ := hlive.exists_left hb
    obtain ⟨hname, hblk, hbytes, -⟩ := hab.moved.frame
    obtain ⟨v, hv, hstored⟩ := hl.stored a ha
    refine ⟨v, hname ▸ hv, fun c => ?_⟩
    by_cases hin : a.blkOffset = i
    · rw [hblk, hin, Function.update_self]
      have hrec := (hab.place hin (hl.fits a ha).valid).2.2
      exact ⟨hbytes ▸ (hstored c).length, hrec.trans (hin ▸ (hstored .main).record)⟩
    · rw [hab.moved.2 (.inl (by simpa using hin)), Function.update_of_ne hin]
      exact hstored c
  · intro name v hv
    obtain ⟨a, ha, rfl⟩ := hl.known name v hv
    obtain ⟨b, hb, hab⟩ := hlive.exists_right ha
    exact ⟨b, hb, hab.moved.frame.1⟩

/-! ## Rebuilding -/

/-- What the rebuild of blocks leaves in the head block: only offsets and used lengths
change, and the items of a block fill its front. -/
structure Rebuilt (is : List ℕ) (hb hb' : HeadBlk) : Prop where
  heads : List.Forall₂ (MovedIn is) hb.heads hb'.heads
  statics : hb'.statics = hb.statics
  flag : hb'.validFlag = hb.validFlag
  used : ∀ i ∈ is, hb'.usedInfo i = { hb.usedInfo i with usedLen := blkLoad hb.heads i }
  usedOther : ∀ i, i ∉ is → hb'.usedInfo i = hb.usedInfo i
  front : ∀ b ∈ hb'.heads, b.blkOffset ∈ is → b.validFlg = true →
    b.span.stop ≤ blkLoad hb.heads b.blkOffset

theorem configContentCpy_spec
    (hl : Layout bd sha content hb.usedInfo (hb.heads.filter UcCfgHead.validFlg) m) (i : ℕ) :
    ∃ new hb', configContentCpy bd (content .main i) i hb = .ok (new, hb') ∧
      Rebuilt [i] hb hb' ∧
      Layout bd sha (fun c => Function.update (content c) i new) hb'.usedInfo
        (hb'.heads.filter UcCfgHead.validFlg) m := by
  have hload : blkLoad hb.heads i < DEVDRV_FLASH_BLOCK_SIZE :=
    blkLoad_filter hb.heads i ▸ hl.blkLoad_lt i
  obtain ⟨mv, heads', hrun, hpos, -, hrel, hpair⟩ :=
    moveItems_spec (content .main i) ⟨fun _ => 0, 0⟩
      (fun h hh _ hvalid => hl.fits h (List.mem_filter.mpr ⟨hh, hvalid⟩))
      (by simpa using hload)
  rw [Nat.zero_add] at hpos
  rw [hpos] at hrel
  refine ⟨mv.tmpBlk, { hb with
    heads := heads', usedInfo := packedInfo hb.usedInfo i (blkLoad hb.heads i) }, ?_, ?_,
    hl.packed hrel hpair⟩
  · rw [configContentCpy, hrun]
    simp only [bind, Except.bind, hpos]
    rfl
  · refine ⟨hrel.imp fun a b hab => hab.moved, rfl, rfl, ?_, ?_, ?_⟩
    · intro j hj
      rw [List.mem_singleton.mp hj]
      exact packedInfo_self hload
    · intro j hj
      exact Function.update_of_ne (by simpa using hj) _ _
    · intro b hb hblk hvalid
      obtain ⟨a, -, hab⟩ := hrel.exists_left hb
      obtain ⟨-, hsame, -, -, hv⟩ := hab.moved.frame
      rw [List.mem_singleton] at hblk
      rw [hblk]
      exact (hab.place (hsame ▸ hblk) (hv ▸ hvalid)).2.1

theorem Rebuilt.cons {is : List ℕ} {hb' hb'' : HeadBlk} (hi : i ∉ is)
    (hone : Rebuilt [i] hb hb') (hrest : Rebuilt is hb' hb'') : Rebuilt (i :: is) hb hb'' where
  heads := hone.heads.trans hrest.heads fun _ _ _ hab hbc => hab.trans hbc
  statics := hrest.statics.trans hone.statics
  flag := hrest.flag.trans hone.flag
  used j hj := by
    rcases List.mem_cons.mp hj with rfl | hj
    · rw [hrest.usedOther j hi, hone.used j List.mem_cons_self]
    · have hne : j ∉ [i] := fun heq => hi (List.mem_singleton.mp heq ▸ hj)
      rw [hrest.used j hj, hone.usedOther j hne, blkLoad_moved hone.heads j]
  usedOther j hj := by
    rw [List.mem_cons, not_or] at hj
    rw [hrest.usedOther j hj.2, hone.usedOther j (by simpa using hj.1)]
  front c hc hblk hvalid := by
    by_cases hin : c.blkOffset ∈ is
    · rw [blkLoad_moved hone.heads]
      exact hrest.front c hc hin hvalid
    · obtain ⟨b, hb, hbc⟩ := hrest.heads.exists_left hc
      have heq := hbc.2 (.inl (hbc.frame.2.1 ▸ hin))
      rw [heq] at hblk hvalid hin ⊢
      refine hone.front b hb ?_ hvalid
      rcases List.mem_cons.mp hblk with hblk | hblk
      · exact List.mem_singleton.mpr hblk
      · exact absurd hblk hin

theorem rebuildBlocks_spec {is : List ℕ} {read : ℕ → Block} (hnodup : is.Nodup)
    (hread : ∀ j ∈ is, content .main j = read j)
    (hl : Layout bd sha content hb.usedInfo (hb.heads.filter UcCfgHead.validFlg) m) :
    ∃ read' hb', rebuildBlocks bd is read hb = .ok (read', hb') ∧ Rebuilt is hb hb' ∧
      (∀ j, j ∉ is → read' j = read j) ∧
      Layout bd sha (fun c j => if j ∈ is then read' j else content c j) hb'.usedInfo
        (hb'.heads.filter UcCfgHead.validFlg) m := by
  induction is generalizing read hb content with
  | nil =>
      refine ⟨read, hb, rfl, ⟨List.forall₂_same.mpr fun a _ => ⟨rfl, fun _ => rfl⟩, rfl, rfl, ?_,
        fun _ _ => rfl, ?_⟩, fun _ _ => rfl, by simpa using hl⟩
      · simp
      · simp
  | cons i is ih =>
      obtain ⟨hi, hnodup⟩ := List.nodup_cons.mp hnodup
      obtain ⟨new, hb', hcpy, hone, hl'⟩ := configContentCpy_spec hl i
      have hread' : ∀ j ∈ is, Function.update (content .main) i new j =
          Function.update read i new j := by
        intro j hj
        have hne : j ≠ i := fun heq => hi (heq ▸ hj)
        rw [Function.update_of_ne hne, Function.update_of_ne hne]
        exact hread j (List.mem_cons_of_mem i hj)
      obtain ⟨read', hb'', hrun, hrest, hother, hl''⟩ :=
        ih hnodup (by exact hread') hl'
      refine ⟨read', hb'', ?_, hone.cons hi hrest, fun j hj => ?_, ?_⟩
      · rw [rebuildBlocks, ← hread i List.mem_cons_self, hcpy]
        exact hrun
      · rw [List.mem_cons, not_or] at hj
        rw [hother j hj.2, Function.update_of_ne hj.1]
      · convert hl'' using 3 with c j
        by_cases hj : j = i
        · subst hj
          rw [if_pos List.mem_cons_self, if_neg hi, Function.update_self, hother _ hi,
            Function.update_self]
        · rw [Function.update_of_ne hj]
          simp [hj]

/-- The rebuild succeeds and writes both copies; the values stay. -/
theorem configRebuildItemContent_spec (hlen : hb.heads.length ≤ bd.headNumMax)
    (hl : Layout bd sha fl.content hb.usedInfo (hb.heads.filter UcCfgHead.validFlg) m) :
    ∃ hb' fl', configRebuildItemContent bd sha hb fl = (.ok hb', fl') ∧
      Rebuilt bd.contentBlks hb hb' ∧ (∀ c, fl'.head c = hb') ∧
      checkValid sha hb' = hb.validFlag ∧
      Layout bd sha fl'.content hb'.usedInfo (hb'.heads.filter UcCfgHead.validFlg) m := by
  obtain ⟨content, hb', hrun, hre, -, hl'⟩ :=
    rebuildBlocks_spec (List.nodup_range' ..) (fun j _ => rfl) hl
  refine ⟨setCheckCode sha hb', configWriteSyncData bd content (setCheckCode sha hb') fl, ?_,
    ⟨hre.heads, hre.statics, hre.flag, hre.used, hre.usedOther, hre.front⟩, fun _ => rfl, ?_, hl'⟩
  · rw [configRebuildItemContent, configSyncMainBackup_eq hlen hl, andThen_ok,
      configRebuildItemData, if_neg (by omega), Build.contentBlks, hrun, andThen_ok]
  · rw [checkValid_setCheckCode, hre.flag]

end OpiaiKernel.UserCfg
