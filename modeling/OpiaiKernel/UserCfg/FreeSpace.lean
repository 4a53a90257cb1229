import Mathlib.Data.List.Sort
import OpiaiKernel.UserCfg.Flash

/-!
# The search for free space

An item and its digest go into one content block.  One build counts how much of
each block is used and takes the place behind it.  The other sorts the valid
items and looks for a gap between two of them, or behind the last one.
-/

namespace OpiaiKernel.UserCfg

/-- The difference of two 32-bit offsets. -/
def u32Sub (a b : ℕ) : ℕ := (a + 2 ^ 32 - b) % 2 ^ 32

/-- The place that a search finds, and the information on the blocks that it leaves. -/
structure Room where
  blkOffset : ℕ
  itemOffset : ℕ
  usedInfo : ℕ → UcBlkUsedInfo

/-- What an item of the given size takes. -/
def wantLen (itemBytes : ℕ) : ℕ := itemBytes + DEVDRV_SHA256_DIGEST

/-! ## By the used length -/

def countedSpace (usedInfo : ℕ → UcBlkUsedInfo) (want : ℕ) : List ℕ → Option Room
  | [] => none
  | i :: is =>
      if (usedInfo i).used then
        if want < DEVDRV_FLASH_BLOCK_SIZE - (usedInfo i).usedLen then
          some ⟨i, (usedInfo i).usedLen, Function.update usedInfo i
            { usedInfo i with usedLen := ((usedInfo i).usedLen + want) % 2 ^ 16 }⟩
        else countedSpace usedInfo want is
      else some ⟨i, 0, Function.update usedInfo i ⟨true, want % 2 ^ 16⟩⟩

/-! ## By the gaps -/

structure UcCfgItemInfo where
  blkOffset : ℕ
  startOffset : ℕ
  endOffset : ℕ
  deriving DecidableEq

def itemCompare (a b : UcCfgItemInfo) : ℤ :=
  if a.blkOffset = b.blkOffset then (a.startOffset : ℤ) - b.startOffset
  else (a.blkOffset : ℤ) - b.blkOffset

def ItemLe (a b : UcCfgItemInfo) : Prop := itemCompare a b ≤ 0

instance : DecidableRel ItemLe := fun a b => inferInstanceAs (Decidable (itemCompare a b ≤ 0))

def itemInfo (h : UcCfgHead) : UcCfgItemInfo :=
  ⟨h.blkOffset, h.itemOffset, h.itemOffset + h.itemBytes + DEVDRV_SHA256_DIGEST⟩

def sortedItems (heads : List UcCfgHead) : List UcCfgItemInfo :=
  ((heads.filter UcCfgHead.validFlg).map itemInfo).insertionSort ItemLe

def itemNumEachBlock (heads : List UcCfgHead) (i : ℕ) : ℕ :=
  (heads.filter UcCfgHead.validFlg).countP fun h => h.blkOffset = i

/-- The start of a gap before one of the items, or else the end of the last one. -/
def scanItems (want : ℕ) : ℕ → List UcCfgItemInfo → ℕ ⊕ ℕ
  | pre, [] => .inr pre
  | pre, a :: items =>
      if want ≤ u32Sub a.startOffset pre then .inl pre else scanItems want a.endOffset items

def gapSpace (items : List UcCfgItemInfo) (num : ℕ → ℕ) (usedInfo : ℕ → UcBlkUsedInfo)
    (want : ℕ) : List ℕ → ℕ → Option Room
  | [], _ => none
  | i :: is, start =>
      if num i = 0 then
        some ⟨i, 0, Function.update usedInfo i { usedInfo i with usedLen := want % 2 ^ 16 }⟩
      else
        match scanItems want 0 ((items.drop start).take (num i)) with
        | .inl off => some ⟨i, off, usedInfo⟩
        | .inr pre =>
            if want ≤ u32Sub DEVDRV_FLASH_BLOCK_SIZE pre then
              some ⟨i, pre, Function.update usedInfo i
                { usedInfo i with usedLen := (pre + 1 + want) % 2 ^ 16 }⟩
            else gapSpace items num usedInfo want is (start + num i)

variable (bd : Build)

def configFindFreeSpace (hb : HeadBlk) (itemBytes : ℕ) : Option Room :=
  gapSpace (sortedItems hb.heads) (itemNumEachBlock hb.heads) hb.usedInfo (wantLen itemBytes)
    bd.contentBlks 0

def configGetItemBlkInfo (hb : HeadBlk) (itemBytes : ℕ) : Option Room :=
  if bd.compactSpace then configFindFreeSpace bd hb itemBytes
  else countedSpace hb.usedInfo (wantLen itemBytes) bd.contentBlks

end OpiaiKernel.UserCfg
