import OpiaiKernel.Lib.Machine
import OpiaiKernel.UserCfg.FreeSpace
import OpiaiKernel.UserCfg.Rebuild

/-!
# The operations on the user configuration

A dynamic item is set and cleared by its name.  A new item takes free space, and
so does an item that grows; when there is none, the content blocks are rebuilt and
the search is made again.  A static item has its place in the head block.
-/

namespace OpiaiKernel.UserCfg

open Ring (slice fill)

variable (bd : Build) (sha : Sha256)

/-! ## Setting a dynamic item -/

/-- A free head of the table, or one behind it, gets the name, the size and the place. -/
def configSetNewHead (hb : HeadBlk) (name : ItemName) (itemBytes : ℕ) (room : Room) :
    Except UcErr (HeadBlk × UcCfgHead) :=
  if hb.heads.length * sizeofUcCfgHead < bd.headLenMax - sizeofUcCfgHead then
    match hb.heads.findIdx? fun h => h.validFlg = false with
    | some i =>
        let authorityFlg := (hb.heads[i]?.map UcCfgHead.authorityFlg).getD 0
        let h := ⟨name, room.blkOffset, room.itemOffset, itemBytes, authorityFlg, true⟩
        .ok (setCheckCode sha { hb with heads := hb.heads.set i h }, h)
    | none =>
        let h := ⟨name, room.blkOffset, room.itemOffset, itemBytes, 0, true⟩
        .ok (setCheckCode sha { hb with heads := hb.heads ++ [h] }, h)
  else .error UC_ERR_HEAD_NUM

/-- The head block with what a search leaves. -/
def HeadBlk.take (hb : HeadBlk) (room : Room) : HeadBlk := { hb with usedInfo := room.usedInfo }

def configAddItemHead (hb : HeadBlk) (name : ItemName) (itemBytes : ℕ) (fl : Flash) :
    Except UcErr (HeadBlk × UcCfgHead) × Flash :=
  match configGetItemBlkInfo bd hb itemBytes with
  | some room =>
      andThen (configSyncMainBackup bd sha [room.blkOffset] (hb.take room) fl) fun hb fl =>
        (configSetNewHead bd sha hb name itemBytes room, fl)
  | none =>
      andThen (configRebuildItemContent bd sha hb fl) fun hb fl =>
        match configGetItemBlkInfo bd hb itemBytes with
        | none => (.error UC_ERR_FLASH_FULL, fl)
        | some room => (configSetNewHead bd sha (hb.take room) name itemBytes room, fl)

def UcCfgHead.resize (h : UcCfgHead) (n : ℕ) : UcCfgHead := { h with itemBytes := n }

def UcCfgHead.setValid (h : UcCfgHead) (valid : Bool) : UcCfgHead := { h with validFlg := valid }

/-- A head at the place of a room is valid. -/
def UcCfgHead.moveTo (h : UcCfgHead) (room : Room) : UcCfgHead :=
  { h with blkOffset := room.blkOffset, itemOffset := room.itemOffset, validFlg := true }

def HeadBlk.setHead (hb : HeadBlk) (i : ℕ) (h : UcCfgHead) : HeadBlk :=
  { hb with heads := hb.heads.set i h }

/-- Head `i` of the table gets the place of the room. -/
def placeHead (hb : HeadBlk) (i : ℕ) (h : UcCfgHead) (room : Room) : HeadBlk × UcCfgHead :=
  (setCheckCode sha ((hb.take room).setHead i (h.moveTo room)), h.moveTo room)

/-- The search for gaps clears the valid flag of the head that it is made for; the
search by the used length does not. -/
def growHeads (hb : HeadBlk) (i : ℕ) (h : UcCfgHead) : HeadBlk :=
  hb.setHead i (h.setValid (!bd.compactSpace && h.validFlg))

/-- Head `i` of the table is `h`.  The rebuild leaves a head alone that is not valid. -/
def configUpdateItemHead (hb : HeadBlk) (i : ℕ) (h : UcCfgHead) (itemBytes : ℕ) (fl : Flash) :
    Except UcErr (HeadBlk × UcCfgHead) × Flash :=
  if h.itemBytes < itemBytes then
    match configGetItemBlkInfo bd (growHeads bd hb i (h.resize itemBytes)) itemBytes with
    | some room =>
        (.ok (placeHead sha (growHeads bd hb i (h.resize itemBytes)) i (h.resize itemBytes) room),
          fl)
    | none =>
        andThen (configRebuildItemContent bd sha
          (hb.setHead i ((h.resize itemBytes).setValid false)) fl) fun hb fl =>
            match configGetItemBlkInfo bd hb itemBytes with
            | none => (.error UC_ERR_FLASH_FULL, fl)
            | some room => (.ok (placeHead sha hb i (h.resize itemBytes) room), fl)
  else
    andThen (configSyncMainBackup bd sha [h.blkOffset]
      (hb.setHead i ((h.resize itemBytes).setValid false)) fl) fun hb fl =>
        (.ok (setCheckCode sha (hb.setHead i ((h.resize itemBytes).setValid true)),
          (h.resize itemBytes).setValid true), fl)

/-- Write the item behind a head that was added or changed. -/
def configWriteItem (validBlk : Copy) (buf : List UInt8)
    (r : Except UcErr (HeadBlk × UcCfgHead) × Flash) : Except UcErr Unit × Flash :=
  andThen r fun new fl =>
    andThen (configUpdateItemContent bd sha fl validBlk new.2 buf, fl) fun b fl =>
      (.ok (), configWriteFlashHeadContent fl (some new.1) new.2.blkOffset b)

def configUpdateItemDynamic (validBlk : Copy) (hb : HeadBlk) (i : ℕ) (h : UcCfgHead)
    (buf : List UInt8) (fl : Flash) : Except UcErr Unit × Flash :=
  if buf.length ≠ h.itemBytes then
    configWriteItem bd sha validBlk buf (configUpdateItemHead bd sha hb i h buf.length fl)
  else
    andThen (configCheckItemContent bd sha fl validBlk h buf, fl) fun same fl =>
      if same then (.ok (), fl)
      else
        andThen (configUpdateItemContent bd sha fl validBlk h buf, fl) fun b fl =>
          (.ok (), configWriteFlashHeadContent fl none h.blkOffset b)

def configSetItemDynamic (fl : Flash) (name : ItemName) (buf : List UInt8) :
    Except UcErr Unit × Flash :=
  let (vb, fl) := configGetValidBlock sha fl
  andThen (getUsrCfgNameInfo bd vb.work name, fl) fun
    | none, fl =>
        configWriteItem bd sha vb.validBlk buf
          (configAddItemHead bd sha vb.work name buf.length fl)
    | some (i, h), fl => configUpdateItemDynamic bd sha vb.validBlk vb.work i h buf fl

def setUserConfigDynamic (fl : Flash) (name : ItemName) (buf : List UInt8) :
    Except UcErr Unit × Flash :=
  if buf.length = 0 ∨ UC_ITEM_DATA_MAX_LEN < buf.length then (.error UC_ERR_PARA, fl)
  else configSetItemDynamic bd sha fl name buf

/-! ## Clearing a dynamic item -/

def DEVDRV_UC_FLASH_DEFAULT_VAL : UInt8 := 0xFF

/-- The last head moves to the place of the head that is cleared. -/
def configClearItemHead (hb : HeadBlk) (i : ℕ) : Except UcErr HeadBlk :=
  let num := hb.heads.length
  if num = 0 ∨ bd.headNumMax < num then .error UC_ERR_HEAD_NUM
  else
    let heads :=
      if num ≠ 1 ∧ i ≠ num - 1 then hb.heads[num - 1]?.elim hb.heads (hb.heads.set i) else hb.heads
    .ok (setCheckCode sha { hb with heads := heads.dropLast })

def configClearItem (validBlk : Copy) (hb : HeadBlk) (i : ℕ) (h : UcCfgHead) (fl : Flash) :
    Except UcErr Unit × Flash :=
  if UC_ITEM_DATA_MAX_LEN < h.itemBytes ∨ h.itemBytes = 0 then (.error UC_ERR_PARA, fl)
  else
    let clear := List.replicate h.itemBytes DEVDRV_UC_FLASH_DEFAULT_VAL
    andThen (configUpdateItemContent bd sha fl validBlk h clear, fl) fun b fl =>
      andThen (configClearItemHead bd sha hb i, fl) fun hb fl =>
        (.ok (), configWriteFlashHeadContent fl (some hb) h.blkOffset b)

def clearUserConfigDynamic (fl : Flash) (name : ItemName) : Except UcErr Unit × Flash :=
  let (vb, fl) := configGetValidBlock sha fl
  if vb.flag = .invalid then
    (.error UC_ERR_HEAD_NOT_FOUND, (fl.writeHead .main initBlock).writeHead .backup initBlock)
  else
    andThen (getUsrCfgNameInfo bd vb.block name, fl) fun
      | none, fl => (.error UC_ERR_HEAD_NOT_FOUND, fl)
      | some (i, h), fl => configClearItem bd sha vb.validBlk vb.block i h fl

/-! ## Static items -/

def UC_CONFIG_FLASH_OFFSET : ℕ := 4
def UC_ITEM_VALID_VALUE : UInt8 := 1

/-- A static item lies before the table of the dynamic ones; its first byte says whether
it was set. -/
structure UserConfigItem where
  offset : ℕ
  len : ℕ
  defaultData : List UInt8
  below : UC_CONFIG_FLASH_OFFSET + offset + len ≤ UC_DYNAMIC_CFG_HEAD_OFFSET

def configSetItem (hb : HeadBlk) (item : UserConfigItem) (buf : List UInt8) (effect : Bool) :
    Except UcErr HeadBlk :=
  if item.len - 1 ≠ buf.length then .error UC_ERR_PARA
  else
    let valid := if effect then UC_ITEM_VALID_VALUE else 0
    let statics := fill hb.statics (UC_CONFIG_FLASH_OFFSET + item.offset) (valid :: buf)
    .ok (setCheckCode sha { hb with statics := statics })

def configUpdate (fl : Flash) (item : UserConfigItem) (buf : List UInt8) (effect : Bool) :
    Except UcErr Unit × Flash :=
  let (vb, fl) := configGetValidBlock sha fl
  andThen (configSetItem sha vb.work item buf effect, fl) fun hb fl =>
    (.ok (), (fl.writeHead .main hb).writeHead .backup hb)

inductive Request
  | set (name : ItemName) (buf : List UInt8)
  | clear (name : ItemName)
  | updateStatic (item : UserConfigItem) (buf : List UInt8) (effect : Bool)

def serve (fl : Flash) : Request → Except UcErr Unit × Flash
  | .set name buf => setUserConfigDynamic bd sha fl name buf
  | .clear name => clearUserConfigDynamic bd sha fl name
  | .updateStatic item buf effect => configUpdate sha fl item buf effect

/-- The flash, and for each name the value of the last successful set since the last
successful clear. -/
structure Store where
  flash : Flash
  last : ItemName → Option (List UInt8)

/-- What a request that succeeded does to the values. -/
def Request.note (last : ItemName → Option (List UInt8)) : Request → ItemName → Option (List UInt8)
  | .set name buf => Function.update last name (some buf)
  | .clear name => Function.update last name none
  | .updateStatic .. => last

def Store.serve (s : Store) (r : Request) : Store :=
  match UserCfg.serve bd sha s.flash r with
  | (.ok (), fl) => ⟨fl, r.note s.last⟩
  | (.error _, fl) => ⟨fl, s.last⟩

/-- No valid head block has been written, and nothing has been set. -/
structure Store.Fresh (s : Store) : Prop where
  head : ∀ c, checkValid sha (s.flash.head c) = false
  last : ∀ name, s.last name = none

def storeMachine : Machine Store Request where
  init s := s.Fresh sha
  step s r := some (s.serve bd sha r)

end OpiaiKernel.UserCfg
