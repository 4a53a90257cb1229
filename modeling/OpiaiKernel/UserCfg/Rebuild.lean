import OpiaiKernel.UserCfg.Flash

/-!
# Synchronizing and rebuilding content blocks

Synchronizing compares each valid item of a block with its backup, restores the
copy whose digest is wrong and gives up an item with two wrong copies.  When
there is no room, all content blocks are rebuilt: the valid items of a block move
to its front, and the blocks and the head block are written back.
-/

namespace OpiaiKernel.UserCfg

open Ring (slice fill)

variable (bd : Build) (sha : Sha256)

/-! ## Synchronizing -/

structure UcSyncInfo where
  mainBlk : Block
  backupBlk : Block

def cmpSha256Data (b : Block) (h : UcCfgHead) : Bool := sha.item (itemData b h) = itemDigest b h

/-- The bytes of an item with its digest. -/
def itemRecord (b : Block) (h : UcCfgHead) : List UInt8 :=
  slice b h.itemOffset (h.itemBytes + DEVDRV_SHA256_DIGEST)

def configSyncItemContent (s : UcSyncInfo) (h : UcCfgHead) :
    Except UcErr (UcSyncInfo × UcCfgHead) :=
  if DEVDRV_FLASH_BLOCK_SIZE ≤ h.itemOffset + h.itemBytes + DEVDRV_SHA256_DIGEST then
    .error UC_ERR_PARA
  else if cmpSha256Data sha s.mainBlk h then
    if itemRecord s.backupBlk h = itemRecord s.mainBlk h then .ok (s, h)
    else .ok ({ s with
      backupBlk := fill s.backupBlk h.itemOffset (itemRecord s.mainBlk h) }, h)
  else if cmpSha256Data sha s.backupBlk h then
    .ok ({ s with mainBlk := fill s.mainBlk h.itemOffset (itemRecord s.backupBlk h) }, h)
  else .ok (s, { h with validFlg := false })

def syncItems (i : ℕ) : UcSyncInfo → List UcCfgHead → Except UcErr (UcSyncInfo × List UcCfgHead)
  | s, [] => .ok (s, [])
  | s, h :: hs => do
      let (s, h) ←
        if h.blkOffset = i ∧ h.validFlg then configSyncItemContent sha s h else .ok (s, h)
      let (s, hs) ← syncItems i s hs
      .ok (s, h :: hs)

/-- A buffer that no item changed is what the flash holds, so both are written back. -/
def configSyncOneBlock (i : ℕ) (hb : HeadBlk) (fl : Flash) : Except UcErr HeadBlk × Flash :=
  if bd.headNumMax < hb.heads.length then (.error UC_ERR_HEAD_NUM, fl)
  else if hb.heads.length = 0 then (.ok hb, fl)
  else
    andThen (syncItems sha i ⟨fl.content .main i, fl.content .backup i⟩ hb.heads, fl) fun r fl =>
      (.ok { hb with heads := r.2 },
        (fl.writeContent .main i r.1.mainBlk).writeContent .backup i r.1.backupBlk)

def configSyncMainBackup : List ℕ → HeadBlk → Flash → Except UcErr HeadBlk × Flash
  | [], hb, fl => (.ok hb, fl)
  | i :: is, hb, fl => andThen (configSyncOneBlock bd sha i hb fl) (configSyncMainBackup is)

/-! ## Rebuilding -/

structure Moved where
  tmpBlk : Block
  pos : ℕ

def configMoveItemContent (content : Block) (m : Moved) (h : UcCfgHead) :
    Except UcErr (Moved × UcCfgHead) :=
  if DEVDRV_FLASH_BLOCK_SIZE ≤ m.pos then .error UC_ERR_PARA
  else do
    userCfgHeadCheck bd h
    let cpyLen := h.itemBytes + DEVDRV_SHA256_DIGEST
    if DEVDRV_FLASH_BLOCK_SIZE - m.pos < cpyLen then .error .ERANGE
    else .ok (⟨fill m.tmpBlk m.pos (itemRecord content h), m.pos + cpyLen⟩,
      { h with itemOffset := m.pos })

def moveItems (content : Block) (i : ℕ) :
    Moved → List UcCfgHead → Except UcErr (Moved × List UcCfgHead)
  | m, [] => .ok (m, [])
  | m, h :: hs => do
      let (m, h) ←
        if h.blkOffset = i ∧ h.validFlg then configMoveItemContent bd content m h else .ok (m, h)
      let (m, hs) ← moveItems content i m hs
      .ok (m, h :: hs)

def configContentCpy (content : Block) (i : ℕ) (hb : HeadBlk) : Except UcErr (Block × HeadBlk) := do
  let (m, heads) ← moveItems bd content i ⟨fun _ => 0, 0⟩ hb.heads
  let used := { hb.usedInfo i with usedLen := m.pos % 2 ^ 16 }
  .ok (m.tmpBlk, { hb with heads := heads, usedInfo := Function.update hb.usedInfo i used })

/-- The content blocks, as they are to be written, and the head block. -/
def rebuildBlocks : List ℕ → (ℕ → Block) → HeadBlk → Except UcErr ((ℕ → Block) × HeadBlk)
  | [], content, hb => .ok (content, hb)
  | i :: is, content, hb => do
      let (b, hb) ← configContentCpy bd (content i) i hb
      rebuildBlocks is (Function.update content i b) hb

def configWriteSyncData (content : ℕ → Block) (hb : HeadBlk) (fl : Flash) : Flash where
  head _ := hb
  content c i := if i ∈ bd.contentBlks then content i else fl.content c i

def configRebuildItemData (hb : HeadBlk) (fl : Flash) : Except UcErr HeadBlk × Flash :=
  if bd.headNumMax < hb.heads.length then (.error UC_ERR_PARA, fl)
  else
    andThen (rebuildBlocks bd bd.contentBlks (fl.content .main) hb, fl) fun r fl =>
      (.ok (setCheckCode sha r.2), configWriteSyncData bd r.1 (setCheckCode sha r.2) fl)

def configRebuildItemContent (hb : HeadBlk) (fl : Flash) : Except UcErr HeadBlk × Flash :=
  andThen (configSyncMainBackup bd sha bd.contentBlks hb fl) (configRebuildItemData bd sha)

end OpiaiKernel.UserCfg
