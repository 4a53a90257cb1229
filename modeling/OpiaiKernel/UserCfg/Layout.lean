import Mathlib.Tactic.Common
import OpiaiKernel.Lib.Keyed
import OpiaiKernel.Lib.Span
import OpiaiKernel.UserCfg.Rebuild

/-!
# What the blocks of the store hold

The valid heads have different names, their items do not overlap and end inside
their block, and both copies of the block hold the value of the name there with
its digest.
-/

namespace OpiaiKernel.UserCfg

open Ring (slice fill)

variable {bd : Build} {sha : Sha256} {content content' : Copy → ℕ → Block}
  {used used' : ℕ → UcBlkUsedInfo} {heads heads' : List UcCfgHead} {a h : UcCfgHead}
  {m : ItemName → Option (List UInt8)} {v : List UInt8} {b : Block}

theorem mem_contentBlks {i : ℕ} :
    i ∈ bd.contentBlks ↔ UC_ITEM_CONTENT_BLK_START ≤ i ∧ i < bd.mainNum := by
  rw [Build.contentBlks, List.mem_range'_1]
  omega

/-- What an item takes of its block. -/
def UcCfgHead.span (h : UcCfgHead) : Span := ⟨h.itemOffset, h.itemBytes + DEVDRV_SHA256_DIGEST⟩

def UcCfgHead.Apart (a b : UcCfgHead) : Prop :=
  a.blkOffset = b.blkOffset → a.span.Apart b.span

theorem UcCfgHead.Apart.symm {a b : UcCfgHead} (hab : a.Apart b) : b.Apart a :=
  fun heq => (hab heq.symm).symm

structure UcCfgHead.Fits (bd : Build) (h : UcCfgHead) : Prop where
  valid : h.validFlg = true
  blk : h.blkOffset ∈ bd.contentBlks
  bytes_pos : 0 < h.itemBytes
  bytes_le : h.itemBytes ≤ UC_ITEM_DATA_MAX_LEN
  stop_lt : h.itemOffset + h.itemBytes + DEVDRV_SHA256_DIGEST < DEVDRV_FLASH_BLOCK_SIZE
  authority : h.authorityFlg ≤ UC_AUTHORITY_USER_RO

theorem UcCfgHead.Fits.headCheck (hfit : h.Fits bd) : userCfgHeadCheck bd h = .ok () := by
  have hblk := (mem_contentBlks.mp hfit.blk).2
  have hbytes := hfit.bytes_le
  have hstop := hfit.stop_lt
  have hauth := hfit.authority
  unfold userCfgHeadCheck
  rw [if_neg (by omega), if_neg (by omega), if_neg (by omega), if_neg (by omega),
    if_neg (by omega), if_neg (by simp [hfit.valid])]

/-- The value and its digest are at the place of the head. -/
structure Stored (sha : Sha256) (b : Block) (h : UcCfgHead) (v : List UInt8) : Prop where
  length : v.length = h.itemBytes
  record : itemRecord b h = v ++ sha.item v

theorem itemRecord_eq (b : Block) (h : UcCfgHead) :
    itemRecord b h = itemData b h ++ itemDigest b h :=
  Ring.slice_add b h.itemOffset h.itemBytes DEVDRV_SHA256_DIGEST

theorem Stored.data_digest (hs : Stored sha b h v) :
    itemData b h = v ∧ itemDigest b h = sha.item v := by
  have hrec := hs.record
  rw [itemRecord_eq] at hrec
  exact List.append_inj hrec (by simp [itemData, slice, hs.length])

theorem Stored.cmp (hs : Stored sha b h v) : cmpSha256Data sha b h = true := by
  simp [cmpSha256Data, hs.data_digest.1, hs.data_digest.2]

theorem stored_fill (hlen : v.length = h.itemBytes) :
    Stored sha (fill b h.itemOffset (v ++ sha.item v)) h v := by
  refine ⟨hlen, ?_⟩
  have hsize : h.itemBytes + DEVDRV_SHA256_DIGEST = (v ++ sha.item v).length := by
    rw [List.length_append, hlen, sha.length_item]
  rw [itemRecord, hsize, Ring.slice_fill]

/-- Writing one item leaves an item that does not overlap it. -/
theorem Stored.fill_apart {w : List UInt8} (hs : Stored sha b a w) (hapart : h.span.Apart a.span)
    (hlen : v.length = h.itemBytes) :
    Stored sha (fill b h.itemOffset (v ++ sha.item v)) a w := by
  refine ⟨hs.length, ?_⟩
  rw [← hs.record, itemRecord, itemRecord]
  apply Ring.slice_fill_of_disjoint
  rw [List.length_append, hlen, sha.length_item]
  simp only [Span.Apart, Span.stop, UcCfgHead.span] at hapart
  omega

/-- What the heads of a table say, and what both copies of the blocks hold. -/
structure Layout (bd : Build) (sha : Sha256) (content : Copy → ℕ → Block)
    (used : ℕ → UcBlkUsedInfo) (heads : List UcCfgHead)
    (m : ItemName → Option (List UInt8)) : Prop where
  fits : ∀ h ∈ heads, h.Fits bd
  names : Keyed.Uniq UcCfgHead.itemName heads
  apart : heads.Pairwise UcCfgHead.Apart
  counted : bd.compactSpace = false → ∀ h ∈ heads,
    (used h.blkOffset).used = true ∧ h.span.stop ≤ (used h.blkOffset).usedLen
  bounded : ∀ i, (used i).usedLen < DEVDRV_FLASH_BLOCK_SIZE
  stored : ∀ h ∈ heads, ∃ v, m h.itemName = some v ∧
    ∀ c, Stored sha (content c h.blkOffset) h v
  known : ∀ name v, m name = some v → ∃ h ∈ heads, h.itemName = name

namespace Layout

/-- The order of the heads does not matter. -/
theorem perm (hl : Layout bd sha content used heads m) (hp : heads.Perm heads') :
    Layout bd sha content used heads' m where
  fits h hh := hl.fits h (hp.mem_iff.mpr hh)
  names := hl.names.perm hp
  apart := hp.pairwise hl.apart fun hab => hab.symm
  counted hb h hh := hl.counted hb h (hp.mem_iff.mpr hh)
  bounded := hl.bounded
  stored h hh := hl.stored h (hp.mem_iff.mpr hh)
  known name v hv := by
    obtain ⟨h, hh, heq⟩ := hl.known name v hv
    exact ⟨h, hp.mem_iff.mp hh, heq⟩

theorem filter_valid (hl : Layout bd sha content used heads m) :
    heads.filter UcCfgHead.validFlg = heads :=
  List.filter_eq_self.mpr fun h hh => (hl.fits h hh).valid

/-- Without one head, its name has no value. -/
theorem tail (hl : Layout bd sha content used (h :: heads) m) :
    Layout bd sha content used heads (Function.update m h.itemName none) where
  fits a ha := hl.fits a (List.mem_cons_of_mem h ha)
  names := hl.names.tail
  apart := (List.pairwise_cons.mp hl.apart).2
  counted hb a ha := hl.counted hb a (List.mem_cons_of_mem h ha)
  bounded := hl.bounded
  stored a ha := by
    rw [Function.update_of_ne (hl.names.ne_of_tail ha)]
    exact hl.stored a (List.mem_cons_of_mem h ha)
  known name v hv := by
    have hne : name ≠ h.itemName := by
      rintro rfl
      simp at hv
    rw [Function.update_of_ne hne] at hv
    obtain ⟨a, ha, rfl⟩ := hl.known name v hv
    rcases List.mem_cons.mp ha with rfl | ha
    · exact absurd rfl hne
    · exact ⟨a, ha, rfl⟩

/-- The information on the blocks may change as long as it counts all items. -/
theorem usedInfo (hl : Layout bd sha content used heads m)
    (hcounted : bd.compactSpace = false → ∀ h ∈ heads,
      (used' h.blkOffset).used = true ∧ h.span.stop ≤ (used' h.blkOffset).usedLen)
    (hbounded : ∀ i, (used' i).usedLen < DEVDRV_FLASH_BLOCK_SIZE) :
    Layout bd sha content used' heads m :=
  { hl with counted := hcounted, bounded := hbounded }

/-- An item with a new name is written to a place that no other one overlaps. -/
theorem write (hl : Layout bd sha content used heads m) (hfit : h.Fits bd)
    (hname : ∀ a ∈ heads, a.itemName ≠ h.itemName) (hapart : ∀ a ∈ heads, h.Apart a)
    (hcounted : bd.compactSpace = false →
      (used h.blkOffset).used = true ∧ h.span.stop ≤ (used h.blkOffset).usedLen)
    (hlen : v.length = h.itemBytes) (c : Copy)
    (hnew : ∀ c', content' c' h.blkOffset =
      fill (content c h.blkOffset) h.itemOffset (v ++ sha.item v))
    (hold : ∀ c' i, i ≠ h.blkOffset → content' c' i = content c' i) :
    Layout bd sha content' used (h :: heads) (Function.update m h.itemName (some v)) where
  fits a ha := by
    rcases List.mem_cons.mp ha with rfl | ha
    · exact hfit
    · exact hl.fits a ha
  names := hl.names.cons hname
  apart := List.pairwise_cons.mpr ⟨hapart, hl.apart⟩
  counted hb a ha := by
    rcases List.mem_cons.mp ha with rfl | ha
    · exact hcounted hb
    · exact hl.counted hb a ha
  bounded := hl.bounded
  stored a ha := by
    rcases List.mem_cons.mp ha with rfl | ha
    · refine ⟨v, Function.update_self _ _ _, fun c' => ?_⟩
      rw [hnew]
      exact stored_fill hlen
    · obtain ⟨w, hw, hstored⟩ := hl.stored a ha
      refine ⟨w, by rw [Function.update_of_ne (hname a ha), hw], fun c' => ?_⟩
      by_cases hblk : a.blkOffset = h.blkOffset
      · rw [hblk, hnew]
        have hstored := hblk ▸ hstored c
        exact hstored.fill_apart (hapart a ha hblk.symm) hlen
      · rw [hold c' _ hblk]
        exact hstored c'
  known name w hw := by
    by_cases hname : name = h.itemName
    · exact ⟨h, List.mem_cons_self, hname.symm⟩
    · rw [Function.update_of_ne hname] at hw
      obtain ⟨a, ha, heq⟩ := hl.known name w hw
      exact ⟨a, List.mem_cons_of_mem h ha, heq⟩

end Layout

/-! ## The working head block -/

/-- A head block that the flash holds, or that is about to be written to it. -/
structure Work (bd : Build) (sha : Sha256) (fl : Flash) (hb : HeadBlk)
    (m : ItemName → Option (List UInt8)) : Prop where
  flag : hb.validFlag = true
  length : hb.heads.length ≤ bd.headNumMax
  layout : Layout bd sha fl.content hb.usedInfo hb.heads m

/-- The flash holds the values: in valid copies of one head block, or there is no
valid head block and no value. -/
inductive Holds (bd : Build) (sha : Sha256) (fl : Flash)
    (m : ItemName → Option (List UInt8)) : Prop
  | blank (head : ∀ c, checkValid sha (fl.head c) = false) (none : ∀ name, m name = none)
  | held (hb : HeadBlk) (head : ∀ c, fl.head c = hb) (valid : checkValid sha hb = true)
      (work : Work bd sha fl hb m)

variable {fl : Flash} {hb : HeadBlk} {name : ItemName}

@[simp] theorem checkValid_setCheckCode :
    checkValid sha (setCheckCode sha hb) = hb.validFlag := by
  simp [checkValid, setCheckCode]

theorem work_initBlock (hm : ∀ name, m name = none) : Work bd sha fl initBlock m where
  flag := rfl
  length := Nat.zero_le _
  layout :=
    { fits := by simp [initBlock]
      names := List.nodup_nil
      apart := List.Pairwise.nil
      counted := by simp [initBlock]
      bounded := by
        intro i
        simp only [initBlock]
        split <;> decide
      stored := by simp [initBlock]
      known := by simp [hm] }

/-- An operation works on a head block with the values, and reads the main partition. -/
theorem Holds.work (hh : Holds bd sha fl m) :
    ∃ vb, configGetValidBlock sha fl = (vb, fl) ∧ vb.validBlk = .main ∧
      Work bd sha fl vb.work m := by
  cases hh with
  | blank head none =>
      refine ⟨⟨.invalid, .main, fl.head .backup⟩, ?_, rfl, work_initBlock none⟩
      simp [configGetValidBlock, head]
  | held hb head valid work =>
      refine ⟨⟨.all, .main, hb⟩, ?_, rfl, work⟩
      simp [configGetValidBlock, head, valid]

/-- A name that no valid head has is not found. -/
theorem getUsrCfgNameInfo_none (hlen : hb.heads.length ≤ bd.headNumMax)
    (hno : ∀ a ∈ hb.heads.filter UcCfgHead.validFlg, a.itemName ≠ name) :
    getUsrCfgNameInfo bd hb name = .ok none := by
  rw [getUsrCfgNameInfo, if_neg (by omega)]
  cases hidx : hb.heads.findIdx? fun h => h.itemName = name with
  | none => rfl
  | some i =>
      obtain ⟨hi, hname, -⟩ := List.findIdx?_eq_some_iff_getElem.mp hidx
      have hoff : hb.heads[i].validFlg = false := by
        by_contra hvalid
        exact hno _ (List.mem_filter.mpr ⟨List.getElem_mem hi, by simpa using hvalid⟩)
          (of_decide_eq_true hname)
      simp [List.getElem?_eq_getElem hi, hoff]

theorem Work.getUsrCfgNameInfo_none (hw : Work bd sha fl hb m) (hm : m name = none) :
    getUsrCfgNameInfo bd hb name = .ok none := by
  refine UserCfg.getUsrCfgNameInfo_none hw.length ?_
  rintro a ha rfl
  obtain ⟨v, hv, -⟩ := hw.layout.stored a (List.mem_of_mem_filter ha)
  rw [hm] at hv
  exact absurd hv (by simp)

theorem Work.getUsrCfgNameInfo_some (hw : Work bd sha fl hb m) (hm : m name = some v) :
    ∃ i h, getUsrCfgNameInfo bd hb name = .ok (some (i, h)) ∧ hb.heads[i]? = some h ∧
      h.itemName = name := by
  obtain ⟨h, hh, rfl⟩ := hw.layout.known name v hm
  obtain ⟨i, hi, hget⟩ := List.mem_iff_getElem.mp hh
  cases hidx : hb.heads.findIdx? fun a => a.itemName = h.itemName with
  | none =>
      rw [List.findIdx?_eq_none_iff] at hidx
      simpa using hidx h hh
  | some j =>
      obtain ⟨hj, hname, -⟩ := List.findIdx?_eq_some_iff_getElem.mp hidx
      have hmem : hb.heads[j] ∈ hb.heads := List.getElem_mem hj
      have heq : hb.heads[j] = h :=
        hw.layout.names.eq_of_key hmem hh (of_decide_eq_true hname)
      refine ⟨j, h, ?_, by rw [List.getElem?_eq_getElem hj, heq], rfl⟩
      rw [getUsrCfgNameInfo, if_neg (by have := hw.length; omega), hidx]
      simp [List.getElem?_eq_getElem hj, heq, (hw.layout.fits h hh).valid]

end OpiaiKernel.UserCfg
