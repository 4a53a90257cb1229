import Mathlib.Algebra.Ring.Nat
import Mathlib.Logic.Function.Basic
import OpiaiKernel.Lib.Ring

/-!
# The flash of the user configuration

A head block holds the static items, the table of the heads of the dynamic items
and how much of each content block is used.  A content block holds the bytes of
dynamic items, each followed by its digest.  Every block has a backup copy.
-/

namespace OpiaiKernel.UserCfg

open Ring (slice fill)

def DEVDRV_FLASH_BLOCK_SIZE : ℕ := 64 * 1024
def DEVDRV_SHA256_DIGEST : ℕ := 32
def UC_ITEM_DATA_MAX_LEN : ℕ := 0x8000
def UC_ITEM_CONTENT_BLK_START : ℕ := 2
def UC_CFG_NAME_LEN_MAX : ℕ := 32
def UC_CHECK_FLASH_OFFSET : ℕ := 64 * 1024 - 4 - 32
def UC_DYNAMIC_CFG_HEAD_OFFSET : ℕ := 0x2000
def UC_CFG_HEAD_ITEM_START : ℕ := UC_DYNAMIC_CFG_HEAD_OFFSET + 4
def UC_AUTHORITY_USER_RO : ℕ := 2

def sizeofUcCfgHead : ℕ := 52

/-- What the configuration of the kernel fixes: whether gaps between items are
searched, and the number of blocks of the main partition. -/
structure Build where
  compactSpace : Bool
  mainNum : ℕ

namespace Build

/-- `DEVDRV_UC_HEAD_LEN_MAX`: the table ends where the information on the blocks begins. -/
def headLenMax (bd : Build) : ℕ :=
  UC_CHECK_FLASH_OFFSET - (UC_CFG_HEAD_ITEM_START + 4 * bd.mainNum)

def headNumMax (bd : Build) : ℕ := bd.headLenMax / sizeofUcCfgHead

/-- The content blocks of the main partition. -/
def contentBlks (bd : Build) : List ℕ :=
  List.range' UC_ITEM_CONTENT_BLK_START (bd.mainNum - UC_ITEM_CONTENT_BLK_START)

end Build

/-- The codes that the operations return. -/
inductive UcErr
  | EINVAL
  | ENOENT
  | ENOSPC
  | ENXIO
  | EDOM
  | EACCES
  | ERANGE
  deriving DecidableEq, Repr

abbrev UC_ERR_PARA : UcErr := .EINVAL
abbrev UC_ERR_HEAD_NOT_FOUND : UcErr := .ENOENT
abbrev UC_ERR_FLASH_INVALID : UcErr := .ENOENT
abbrev UC_ERR_HEAD_NUM : UcErr := .ENOSPC
abbrev UC_ERR_FLASH_FULL : UcErr := .ENOSPC
abbrev UC_ERR_GET_ITEM_FAIL : UcErr := UcErr.ENXIO
abbrev UC_ERR_MEM_CMP : UcErr := .EDOM
abbrev UC_ERR_NO_AUTHORITY : UcErr := .EACCES

/-- A name fits into a head together with the zero that ends it. -/
abbrev ItemName := { s : List UInt8 // s.length < UC_CFG_NAME_LEN_MAX ∧ 0 ∉ s }

structure UcCfgHead where
  itemName : ItemName
  blkOffset : ℕ
  itemOffset : ℕ
  itemBytes : ℕ
  authorityFlg : ℕ
  validFlg : Bool
  deriving DecidableEq

structure UcBlkUsedInfo where
  used : Bool
  usedLen : ℕ
  deriving DecidableEq

/-- The byte at each offset. -/
abbrev Block := ℕ → UInt8

/-- The bytes before `UC_DYNAMIC_CFG_HEAD_OFFSET`, the heads up to the length of the
table, the information on the blocks, and the two fields at the end. -/
structure HeadBlk where
  statics : Block
  heads : List UcCfgHead
  usedInfo : ℕ → UcBlkUsedInfo
  checkCode : List UInt8
  validFlag : Bool

/-- SHA-256, of the bytes of an item and of a head block up to its check code. -/
structure Sha256 where
  item : List UInt8 → List UInt8
  head : Block → List UcCfgHead → (ℕ → UcBlkUsedInfo) → List UInt8
  length_item : ∀ data, (item data).length = DEVDRV_SHA256_DIGEST

inductive Copy
  | main
  | backup
  deriving DecidableEq, Repr

structure Flash where
  head : Copy → HeadBlk
  content : Copy → ℕ → Block

namespace Flash

def writeHead (fl : Flash) (c : Copy) (hb : HeadBlk) : Flash :=
  { fl with head := Function.update fl.head c hb }

def writeContent (fl : Flash) (c : Copy) (i : ℕ) (b : Block) : Flash :=
  { fl with content := Function.update fl.content c (Function.update (fl.content c) i b) }

end Flash

/-- Go on after a step that succeeded; what a failing step wrote stays. -/
def andThen {α β : Type} (r : Except UcErr α × Flash) (f : α → Flash → Except UcErr β × Flash) :
    Except UcErr β × Flash :=
  match r with
  | (.error e, fl) => (.error e, fl)
  | (.ok a, fl) => f a fl

@[simp] theorem andThen_ok {α β : Type} (a : α) (fl : Flash)
    (f : α → Flash → Except UcErr β × Flash) : andThen (.ok a, fl) f = f a fl := rfl

@[simp] theorem andThen_error {α β : Type} (e : UcErr) (fl : Flash)
    (f : α → Flash → Except UcErr β × Flash) : andThen (.error e, fl) f = (.error e, fl) := rfl

variable (bd : Build) (sha : Sha256)

/-! ## Head blocks -/

def setCheckCode (hb : HeadBlk) : HeadBlk :=
  { hb with checkCode := sha.head hb.statics hb.heads hb.usedInfo }

def checkValid (hb : HeadBlk) : Bool :=
  hb.validFlag && sha.head hb.statics hb.heads hb.usedInfo == hb.checkCode

/-- A new head block, without its check code; byte 0 is the version. -/
def initBlock : HeadBlk where
  statics := Function.update (fun _ => 0) 0 1
  heads := []
  usedInfo i :=
    if i < UC_ITEM_CONTENT_BLK_START then ⟨true, DEVDRV_FLASH_BLOCK_SIZE - 1⟩ else ⟨false, 0⟩
  checkCode := List.replicate DEVDRV_SHA256_DIGEST 0
  validFlag := true

/-- Which of the two head blocks are valid. -/
inductive HeadFlag
  | invalid
  | mainHead
  | bkHead
  | all
  deriving DecidableEq, Repr

structure ValidBlock where
  flag : HeadFlag
  validBlk : Copy
  block : HeadBlk

/-- The head block that a change starts from. -/
def ValidBlock.work (vb : ValidBlock) : HeadBlk :=
  if vb.flag = .invalid then initBlock else vb.block

/-- A valid head block is also written over an invalid copy. -/
def configGetValidBlock (fl : Flash) : ValidBlock × Flash :=
  match checkValid sha (fl.head .main), checkValid sha (fl.head .backup) with
  | true, true => (⟨.all, .main, fl.head .main⟩, fl)
  | true, false => (⟨.mainHead, .main, fl.head .main⟩, fl.writeHead .backup (fl.head .main))
  | false, true => (⟨.bkHead, .backup, fl.head .backup⟩, fl.writeHead .main (fl.head .backup))
  | false, false => (⟨.invalid, .main, fl.head .backup⟩, fl)

/-- The first head with the name, if it is valid, and its index. -/
def getUsrCfgNameInfo (hb : HeadBlk) (name : ItemName) : Except UcErr (Option (ℕ × UcCfgHead)) :=
  if bd.headNumMax < hb.heads.length then .error UC_ERR_HEAD_NUM
  else .ok <| (hb.heads.findIdx? fun h => h.itemName = name).bind fun i =>
    hb.heads[i]?.bind fun h => if h.validFlg then some (i, h) else none

def userCfgHeadCheck (h : UcCfgHead) : Except UcErr Unit :=
  if bd.mainNum ≤ h.blkOffset then .error UC_ERR_PARA
  else if UC_ITEM_DATA_MAX_LEN < h.itemBytes then .error UC_ERR_PARA
  else if DEVDRV_FLASH_BLOCK_SIZE ≤ h.itemOffset then .error UC_ERR_PARA
  else if DEVDRV_FLASH_BLOCK_SIZE ≤ h.itemOffset + h.itemBytes + DEVDRV_SHA256_DIGEST then
    .error UC_ERR_PARA
  else if UC_AUTHORITY_USER_RO < h.authorityFlg then .error UC_ERR_NO_AUTHORITY
  else if h.validFlg = false then .error UC_ERR_PARA
  else .ok ()

/-! ## Reading an item -/

/-- The bytes that a head stands for, and the digest behind them. -/
def itemData (b : Block) (h : UcCfgHead) : List UInt8 := slice b h.itemOffset h.itemBytes

def itemDigest (b : Block) (h : UcCfgHead) : List UInt8 :=
  slice b (h.itemOffset + h.itemBytes) DEVDRV_SHA256_DIGEST

def configGetItemContent (fl : Flash) (h : UcCfgHead) (c : Copy) : Except UcErr (List UInt8) := do
  userCfgHeadCheck bd h
  let b := fl.content c h.blkOffset
  if sha.item (itemData b h) = itemDigest b h then .ok (itemData b h)
  else if h.blkOffset < bd.mainNum then .error UC_ERR_GET_ITEM_FAIL
  else .error UC_ERR_MEM_CMP

/-- An item read from the flash; the block is to be written to the main partition when
it was read from the backup. -/
structure ItemRead where
  contentBuf : List UInt8
  mainContent : Option ℕ

/-- The backup is read only with the main head block; otherwise the failure is passed
over and nothing is read. -/
def configGetItemFromHead (fl : Flash) (hb : HeadBlk) (validBlk : Copy) (name : ItemName) :
    Except UcErr ItemRead := do
  match ← getUsrCfgNameInfo bd hb name with
  | none => .error UC_ERR_HEAD_NOT_FOUND
  | some (_, h) =>
      match configGetItemContent bd sha fl h .main with
      | .ok data => .ok ⟨data, none⟩
      | .error e =>
          if e = UC_ERR_GET_ITEM_FAIL then
            if validBlk = .main then do
              let data ← configGetItemContent bd sha fl h .backup
              .ok ⟨data, some h.blkOffset⟩
            else .ok ⟨[], none⟩
          else .error e

def configGetItemDynamic (fl : Flash) (vb : ValidBlock) (name : ItemName) (bufSize : ℕ) :
    Except UcErr ItemRead :=
  if vb.flag = .invalid then .error UC_ERR_FLASH_INVALID
  else do
    let item ←
      match configGetItemFromHead bd sha fl vb.block vb.validBlk name with
      | .ok item => .ok item
      | .error e =>
          if vb.validBlk = .main ∧ vb.flag = .all then
            configGetItemFromHead bd sha fl (fl.head .backup) vb.validBlk name
          else .error e
    if bufSize < item.contentBuf.length then .error UC_ERR_GET_ITEM_FAIL else .ok item

def getUserConfigDynamic (fl : Flash) (name : ItemName) (bufSize : ℕ) :
    Except UcErr (List UInt8) × Flash :=
  let (vb, fl) := configGetValidBlock sha fl
  andThen (configGetItemDynamic bd sha fl vb name bufSize, fl) fun item fl =>
    match item.mainContent with
    | none => (.ok item.contentBuf, fl)
    | some i => (.ok item.contentBuf, fl.writeContent .main i (fl.content .backup i))

/-! ## Writing an item -/

/-- The block with the bytes of the buffer, and their digest, at the place of the head. -/
def configUpdateItemContent (fl : Flash) (validBlk : Copy) (h : UcCfgHead) (buf : List UInt8) :
    Except UcErr Block := do
  userCfgHeadCheck bd h
  let data := buf.take h.itemBytes
  .ok (fill (fl.content validBlk h.blkOffset) h.itemOffset (data ++ sha.item data))

def configCheckItemContent (fl : Flash) (validBlk : Copy) (h : UcCfgHead) (buf : List UInt8) :
    Except UcErr Bool := do
  userCfgHeadCheck bd h
  let b := fl.content validBlk h.blkOffset
  .ok (buf.take h.itemBytes = itemData b h ∧ sha.item (itemData b h) = itemDigest b h)

/-- The content, then the head block if it changed, to the main partition and to the backup. -/
def configWriteFlashHeadContent (fl : Flash) (hb : Option HeadBlk) (i : ℕ) (b : Block) : Flash :=
  let fl := fl.writeContent .main i b
  let fl := hb.elim fl (fl.writeHead .main)
  let fl := fl.writeContent .backup i b
  hb.elim fl (fl.writeHead .backup)

end OpiaiKernel.UserCfg
