import OpiaiKernel.UserCfg.Operations
import OpiaiKernel.UserCfg.RoomSearch

/-!
# Setting an item keeps the values

An item is written to room that overlaps no other one, and then the flash holds
its value beside the others.  When a head is not accepted nothing is written.
-/

namespace OpiaiKernel.UserCfg

open Ring (slice fill)

variable {bd : Build} {sha : Sha256} {content : Copy → ℕ → Block}
  {used : ℕ → UcBlkUsedInfo} {heads : List UcCfgHead} {h : UcCfgHead} {hb hb' : HeadBlk}
  {m : ItemName → Option (List UInt8)} {buf : List UInt8} {room : Room} {fl : Flash} {i : ℕ}
  {name : ItemName}

/-- The head block that an operation on the flash works on. -/
def workBlock (sha : Sha256) (fl : Flash) : HeadBlk := (configGetValidBlock sha fl).1.work

theorem workBlock_of_head (hhead : ∀ c, fl.head c = hb) (hvalid : checkValid sha hb = true) :
    workBlock sha fl = hb := by
  simp [workBlock, configGetValidBlock, ValidBlock.work, hhead, hvalid]

theorem validFlag_of_checkValid (hvalid : checkValid sha hb = true) : hb.validFlag = true := by
  rw [checkValid, Bool.and_eq_true] at hvalid
  exact hvalid.1

@[simp] theorem content_configWriteFlashHeadContent (hb : Option HeadBlk) (i : ℕ) (b : Block)
    (c : Copy) (j : ℕ) :
    (configWriteFlashHeadContent fl hb i b).content c j = if j = i then b else fl.content c j := by
  cases hb <;> cases c <;>
    simp [configWriteFlashHeadContent, Flash.writeContent, Flash.writeHead, Function.update_apply]

@[simp] theorem head_configWriteFlashHeadContent (hb : HeadBlk) (i : ℕ) (b : Block) (c : Copy) :
    (configWriteFlashHeadContent fl (some hb) i b).head c = hb := by
  cases c <;> simp [configWriteFlashHeadContent, Flash.writeContent, Flash.writeHead]

theorem wantLen_lt (hbuf : buf.length ≤ UC_ITEM_DATA_MAX_LEN) :
    wantLen buf.length < DEVDRV_FLASH_BLOCK_SIZE := by
  have : UC_ITEM_DATA_MAX_LEN + DEVDRV_SHA256_DIGEST < DEVDRV_FLASH_BLOCK_SIZE := by decide
  rw [wantLen]
  omega

theorem Layout.name_ne (hl : Layout bd sha content used heads m) (hm : m name = none) :
    ∀ a ∈ heads, a.itemName ≠ name := by
  rintro a ha rfl
  obtain ⟨v, hv, -⟩ := hl.stored a ha
  rw [hm] at hv
  exact absurd hv (by simp)

/-- A head that was added to the others, or put at the place of one of them. -/
structure Placed (bd : Build) (sha : Sha256) (hb : HeadBlk) (h : UcCfgHead) (room : Room)
    (heads : List UcCfgHead) : Prop where
  perm : hb.heads.Perm (h :: heads)
  used : hb.usedInfo = room.usedInfo
  blk : h.blkOffset = room.blkOffset
  off : h.itemOffset = room.itemOffset
  valid : h.validFlg = true
  authority : h.authorityFlg ≤ UC_AUTHORITY_USER_RO
  length : hb.heads.length ≤ bd.headNumMax
  check : checkValid sha hb = true

/-- The item that is written to its room is held with the others; only at the end of the
block its head is not accepted. -/
theorem configWriteItem_spec (hl : Layout bd sha fl.content used heads m)
    (hs : room.Sound bd heads (wantLen buf.length)) (hp : Placed bd sha hb h room heads)
    (hm : m h.itemName = none) (hbytes : h.itemBytes = buf.length) (hpos : 0 < buf.length)
    (hle : buf.length ≤ UC_ITEM_DATA_MAX_LEN) :
    (room.itemOffset + wantLen buf.length = DEVDRV_FLASH_BLOCK_SIZE ∧
      configWriteItem bd sha .main buf (.ok (hb, h), fl) = (.error UC_ERR_PARA, fl)) ∨
    room.itemOffset + wantLen buf.length < DEVDRV_FLASH_BLOCK_SIZE ∧
      ∃ fl', configWriteItem bd sha .main buf (.ok (hb, h), fl) = (.ok (), fl') ∧
        Holds bd sha fl' (Function.update m h.itemName (some buf)) ∧ ∀ c, fl'.head c = hb := by
  have hblk := hp.blk ▸ hs.blk
  have hspan : h.itemOffset + h.itemBytes + DEVDRV_SHA256_DIGEST =
      room.itemOffset + wantLen buf.length := by
    rw [hp.off, hbytes, wantLen, Nat.add_assoc]
  rcases Nat.eq_or_lt_of_le hs.stop_le with heq | hlt
  · refine .inl ⟨heq, ?_⟩
    have hcheck : userCfgHeadCheck bd h = .error UC_ERR_PARA := by
      have hlt := (mem_contentBlks.mp hblk).2
      have hsize : UC_ITEM_DATA_MAX_LEN < DEVDRV_FLASH_BLOCK_SIZE := by decide
      unfold userCfgHeadCheck
      split
      · rfl
      · split
        · rfl
        · split
          · rfl
          · rw [if_pos (by omega)]
    have hupdate : configUpdateItemContent bd sha fl .main h buf = .error UC_ERR_PARA := by
      rw [configUpdateItemContent, hcheck]
      rfl
    rw [configWriteItem, andThen_ok, hupdate, andThen_error]
  · have hfit : h.Fits bd :=
      ⟨hp.valid, hblk, by omega, by omega, by omega, hp.authority⟩
    have hupdate : configUpdateItemContent bd sha fl .main h buf =
        .ok (fill (fl.content .main h.blkOffset) h.itemOffset (buf ++ sha.item buf)) := by
      rw [configUpdateItemContent, hfit.headCheck, hbytes, List.take_length]
      rfl
    refine .inr ⟨hlt, configWriteFlashHeadContent fl (some hb) h.blkOffset
      (fill (fl.content .main h.blkOffset) h.itemOffset (buf ++ sha.item buf)), ?_, ?_, by simp⟩
    · rw [configWriteItem, andThen_ok, hupdate, andThen_ok]
    · refine .held hb (by simp) hp.check
        ⟨validFlag_of_checkValid hp.check, hp.length, Layout.perm ?_ hp.perm.symm⟩
      have hwide : Layout bd sha fl.content hb.usedInfo heads m :=
        hl.usedInfo (fun hb' => hp.used ▸ (hs.counted hb').2) (hp.used ▸ hs.bounded)
      refine hwide.write hfit (hl.name_ne hm) ?_ ?_ hbytes.symm .main (by simp) ?_
      · intro a ha heq
        have := hs.apart a ha (heq.symm.trans hp.blk)
        rw [← hp.off] at this
        simpa [UcCfgHead.span, hbytes, wantLen] using this
      · intro hcompact
        have := (hs.counted hcompact).1
        rw [hp.used, hp.blk]
        refine ⟨this.1, ?_⟩
        simp only [Span.stop, UcCfgHead.span]
        omega
      · intro c j hj
        rw [content_configWriteFlashHeadContent, if_neg hj]

end OpiaiKernel.UserCfg
