import OpiaiKernel.UserCfg.WriteItem

/-!
# What the operations do to the values

An operation that succeeds changes the value of its name, and one that fails
changes none, as long as an item that grows finds room in the end.
-/

namespace OpiaiKernel.UserCfg

variable {bd : Build} {sha : Sha256} {content : Copy → ℕ → Block}
  {used : ℕ → UcBlkUsedInfo} {heads : List UcCfgHead} {h : UcCfgHead} {hb hb' : HeadBlk}
  {m m' : ItemName → Option (List UInt8)} {buf : List UInt8} {room : Room} {fl : Flash} {i n : ℕ}
  {name : ItemName}

/-- An operation that succeeds leaves the values `m'`, one that fails the values `m`;
the static items stay. -/
inductive Served (bd : Build) (sha : Sha256) (statics : Block)
    (m m' : ItemName → Option (List UInt8)) : Except UcErr Unit × Flash → Prop
  | done (fl : Flash) (holds : Holds bd sha fl m') (same : (workBlock sha fl).statics = statics) :
      Served bd sha statics m m' (.ok (), fl)
  | failed (e : UcErr) (fl : Flash) (holds : Holds bd sha fl m)
      (same : (workBlock sha fl).statics = statics) : Served bd sha statics m m' (.error e, fl)

/-! ## A new item -/

def Room.newHead (room : Room) (name : ItemName) (n : ℕ) : UcCfgHead :=
  ⟨name, room.blkOffset, room.itemOffset, n, 0, true⟩

def addHead (sha : Sha256) (hb : HeadBlk) (name : ItemName) (n : ℕ) (room : Room) : HeadBlk :=
  setCheckCode sha { hb.take room with heads := hb.heads ++ [room.newHead name n] }

/-- A table with valid heads only grows by one head. -/
theorem configSetNewHead_eq (hvalid : ∀ a ∈ hb.heads, a.validFlg = true)
    (hlen : hb.heads.length * sizeofUcCfgHead < bd.headLenMax - sizeofUcCfgHead)
    (name : ItemName) (n : ℕ) (room : Room) :
    configSetNewHead bd sha (hb.take room) name n room =
      .ok (addHead sha hb name n room, room.newHead name n) := by
  have hnone : (hb.heads.findIdx? fun h => h.validFlg = false) = none := by
    rw [List.findIdx?_eq_none_iff]
    intro a ha
    simp [hvalid a ha]
  have hlen' : (hb.take room).heads.length * sizeofUcCfgHead <
      bd.headLenMax - sizeofUcCfgHead := hlen
  rw [configSetNewHead, if_pos hlen']
  simp only [HeadBlk.take, hnone]
  rfl

variable (sha) in
theorem placed_addHead
    (hlen : hb.heads.length * sizeofUcCfgHead < bd.headLenMax - sizeofUcCfgHead)
    (hflag : hb.validFlag = true) (name : ItemName) (n : ℕ) (room : Room) :
    Placed bd sha (addHead sha hb name n room) (room.newHead name n) room hb.heads where
  perm := List.perm_append_singleton _ _
  used := rfl
  blk := rfl
  off := rfl
  valid := rfl
  authority := Nat.zero_le _
  length := by
    simp only [addHead, setCheckCode, List.length_append, List.length_singleton]
    rw [Build.headNumMax, Nat.le_div_iff_mul_le (by decide), Nat.add_mul]
    have : 0 < sizeofUcCfgHead := by decide
    omega
  check := by
    rw [addHead, checkValid_setCheckCode]
    exact hflag

theorem Work.room_sound (hw : Work bd sha fl hb m) (hle : buf.length ≤ UC_ITEM_DATA_MAX_LEN)
    (hfound : configGetItemBlkInfo bd hb buf.length = some room) :
    room.Sound bd hb.heads (wantLen buf.length) :=
  configGetItemBlkInfo_sound hw.layout (fun _ => List.Perm.of_eq hw.layout.filter_valid)
    (wantLen_lt hle) hfound

/-- With room at once, the content blocks stay. -/
theorem Work.configAddItemHead_eq (hw : Work bd sha fl hb m)
    (hfound : configGetItemBlkInfo bd hb n = some room) :
    configAddItemHead bd sha hb name n fl =
      (configSetNewHead bd sha (hb.take room) name n room, fl) := by
  have hlen : (hb.take room).heads.length ≤ bd.headNumMax := hw.length
  have hl : Layout bd sha fl.content hb.usedInfo
      ((hb.take room).heads.filter UcCfgHead.validFlg) m := by
    rw [HeadBlk.take, hw.layout.filter_valid]
    exact hw.layout
  rw [configAddItemHead, hfound]
  simp only
  rw [configSyncMainBackup_eq hlen hl, andThen_ok]

theorem served_add (hw : Work bd sha fl hb m) (hh : Holds bd sha fl m)
    (hsame : (workBlock sha fl).statics = hb.statics) (hm : m name = none)
    (hs : room.Sound bd hb.heads (wantLen buf.length)) (hpos : 0 < buf.length)
    (hle : buf.length ≤ UC_ITEM_DATA_MAX_LEN) :
    Served bd sha hb.statics m (Function.update m name (some buf))
      (configWriteItem bd sha .main buf
        (configSetNewHead bd sha (hb.take room) name buf.length room, fl)) := by
  by_cases hlen : hb.heads.length * sizeofUcCfgHead < bd.headLenMax - sizeofUcCfgHead
  · have hp := placed_addHead sha hlen hw.flag name buf.length room
    rw [configSetNewHead_eq (fun a ha => (hw.layout.fits a ha).valid) hlen]
    rcases configWriteItem_spec hw.layout hs hp hm rfl hpos hle with
      ⟨-, hrun⟩ | ⟨-, fl', hrun, hholds, hhead⟩
    · rw [hrun]
      exact .failed _ fl hh hsame
    · rw [hrun]
      refine .done fl' hholds ?_
      rw [workBlock_of_head hhead hp.check]
      rfl
  · have hfull : configSetNewHead bd sha (hb.take room) name buf.length room =
        .error UC_ERR_HEAD_NUM := if_neg hlen
    rw [hfull, configWriteItem, andThen_error]
    exact .failed _ fl hh hsame

/-- The rebuild of a table with valid heads only. -/
theorem Work.rebuild (hw : Work bd sha fl hb m) :
    ∃ hb' fl', configRebuildItemContent bd sha hb fl = (.ok hb', fl') ∧
      Work bd sha fl' hb' m ∧ Holds bd sha fl' m ∧ (workBlock sha fl').statics = hb.statics ∧
      hb'.statics = hb.statics := by
  have hl := hw.layout
  rw [← hl.filter_valid] at hl
  obtain ⟨hb', fl', hrun, hre, hhead, hcheck, hl'⟩ := configRebuildItemContent_spec hw.length hl
  have hall : hb'.heads.filter UcCfgHead.validFlg = hb'.heads := by
    rw [List.filter_eq_self]
    intro b hb
    obtain ⟨a, ha, hab⟩ := hre.heads.exists_left hb
    rw [hab.frame.2.2.2.2]
    exact (hw.layout.fits a ha).valid
  rw [hall] at hl'
  have hw' : Work bd sha fl' hb' m :=
    ⟨hre.flag.trans hw.flag, hre.heads.length_eq ▸ hw.length, hl'⟩
  refine ⟨hb', fl', hrun, hw', .held hb' hhead (hcheck.trans hw.flag) hw', ?_, hre.statics⟩
  rw [workBlock_of_head hhead (hcheck.trans hw.flag), hre.statics]

theorem served_addItem (hw : Work bd sha fl hb m) (hh : Holds bd sha fl m)
    (hsame : (workBlock sha fl).statics = hb.statics) (hm : m name = none)
    (hpos : 0 < buf.length) (hle : buf.length ≤ UC_ITEM_DATA_MAX_LEN) :
    Served bd sha hb.statics m (Function.update m name (some buf))
      (configWriteItem bd sha .main buf (configAddItemHead bd sha hb name buf.length fl)) := by
  cases hfound : configGetItemBlkInfo bd hb buf.length with
  | some room =>
      rw [hw.configAddItemHead_eq hfound]
      exact served_add hw hh hsame hm (hw.room_sound hle hfound) hpos hle
  | none =>
      obtain ⟨hb', fl', hrun, hw', hh', hsame', hstatics⟩ := hw.rebuild
      rw [configAddItemHead, hfound]
      simp only
      rw [hrun, andThen_ok]
      cases hfound' : configGetItemBlkInfo bd hb' buf.length with
      | none => exact .failed _ fl' hh' hsame'
      | some room =>
          rw [← hstatics]
          exact served_add hw' hh' (hsame'.trans hstatics.symm) hm (hw'.room_sound hle hfound')
            hpos hle

/-! ## An item that is there -/

/-- Head `i` of the table, and the others. -/
structure Found (bd : Build) (sha : Sha256) (fl : Flash) (hb : HeadBlk)
    (m : ItemName → Option (List UInt8)) (i : ℕ) (h : UcCfgHead) : Prop where
  lt : i < hb.heads.length
  perm : hb.heads.Perm (h :: hb.heads.eraseIdx i)
  set_perm : ∀ a, (hb.heads.set i a).Perm (a :: hb.heads.eraseIdx i)
  fits : h.Fits bd
  apart : ∀ a ∈ hb.heads.eraseIdx i, h.Apart a
  others : Layout bd sha fl.content hb.usedInfo (hb.heads.eraseIdx i)
    (Function.update m h.itemName none)

theorem Work.found (hw : Work bd sha fl hb m) (hget : hb.heads[i]? = some h) :
    Found bd sha fl hb m i h := by
  obtain ⟨hi, rfl⟩ := List.getElem?_eq_some_iff.mp hget
  have hperm := (List.getElem_cons_eraseIdx_perm hi).symm
  have hl := hw.layout.perm hperm
  exact ⟨hi, hperm, fun a => List.set_perm_cons_eraseIdx hi a, hl.fits _ List.mem_cons_self,
    (List.pairwise_cons.mp hl.apart).1, hl.tail⟩

/-- While the head is not valid, the others are the valid heads. -/
theorem Found.live (hf : Found bd sha fl hb m i h) {a : UcCfgHead} (ha : a.validFlg = false) :
    ((hb.heads.set i a).filter UcCfgHead.validFlg).Perm (hb.heads.eraseIdx i) := by
  have hp := (hf.set_perm a).filter UcCfgHead.validFlg
  rwa [List.filter_cons_of_neg (by simp [ha]), hf.others.filter_valid] at hp

theorem served_same (hw : Work bd sha fl hb m) (hhead : ∀ c, fl.head c = hb)
    (hcheck : checkValid sha hb = true) (hget : hb.heads[i]? = some h)
    (hlen : buf.length = h.itemBytes) :
    Served bd sha hb.statics m (Function.update m h.itemName (some buf))
      (configUpdateItemDynamic bd sha .main hb i h buf fl) := by
  have hf := hw.found hget
  have hmem : h ∈ hb.heads := hf.perm.mem_iff.mpr List.mem_cons_self
  obtain ⟨v, hv, hstored⟩ := hw.layout.stored h hmem
  have hdata := (hstored .main).data_digest
  have hrun : configCheckItemContent bd sha fl .main h buf = .ok (decide (buf = v)) := by
    rw [configCheckItemContent, hf.fits.headCheck, ← hlen, List.take_length]
    simp only [bind, Except.bind, hdata.1, hdata.2, and_true]
  have hupdate : configUpdateItemContent bd sha fl .main h buf =
      .ok (Ring.fill (fl.content .main h.blkOffset) h.itemOffset (buf ++ sha.item buf)) := by
    rw [configUpdateItemContent, hf.fits.headCheck, ← hlen, List.take_length]
    rfl
  rw [configUpdateItemDynamic, if_neg (by simp [hlen]), hrun, andThen_ok, hupdate, andThen_ok]
  by_cases heq : buf = v
  · rw [if_pos (by simp [heq])]
    refine .done fl (.held hb hhead hcheck ?_) (by rw [workBlock_of_head hhead hcheck])
    rwa [heq, ← hv, Function.update_eq_self]
  · rw [if_neg (by simp [heq])]
    have hhead' : ∀ c, (configWriteFlashHeadContent fl none h.blkOffset (Ring.fill
        (fl.content .main h.blkOffset) h.itemOffset (buf ++ sha.item buf))).head c = hb := hhead
    refine .done _ (.held hb hhead' hcheck ⟨hw.flag, hw.length, Layout.perm ?_ hf.perm.symm⟩)
      (by rw [workBlock_of_head hhead' hcheck])
    have hl : Layout bd sha (configWriteFlashHeadContent fl none h.blkOffset (Ring.fill
        (fl.content .main h.blkOffset) h.itemOffset (buf ++ sha.item buf))).content hb.usedInfo
        (h :: hb.heads.eraseIdx i) (Function.update (Function.update m h.itemName none) h.itemName
          (some buf)) :=
      hf.others.write hf.fits (hf.others.name_ne (by simp)) hf.apart
        (fun hcompact => hw.layout.counted hcompact h hmem) hlen .main (by simp)
        (fun c j hj => by rw [content_configWriteFlashHeadContent, if_neg hj])
    rwa [Function.update_idem] at hl

/-- A head at the place of one of the table is written with its item. -/
theorem served_place {statics : Block}
    (hh : Holds bd sha fl m ∨ room.itemOffset + wantLen buf.length < DEVDRV_FLASH_BLOCK_SIZE)
    (hsame : (workBlock sha fl).statics = statics)
    (hl : Layout bd sha fl.content used heads (Function.update m h.itemName none))
    (hs : room.Sound bd heads (wantLen buf.length)) (hp : Placed bd sha hb h room heads)
    (hstatics : hb.statics = statics) (hbytes : h.itemBytes = buf.length)
    (hpos : 0 < buf.length) (hle : buf.length ≤ UC_ITEM_DATA_MAX_LEN) :
    Served bd sha statics m (Function.update m h.itemName (some buf))
      (configWriteItem bd sha .main buf (.ok (hb, h), fl)) := by
  rcases configWriteItem_spec hl hs hp (by simp) hbytes hpos hle with
    ⟨heq, hrun⟩ | ⟨-, fl', hrun, hholds, hhead⟩
  · rw [hrun]
    exact .failed _ fl (hh.resolve_right (by omega)) hsame
  · rw [hrun]
    rw [Function.update_idem] at hholds
    exact .done fl' hholds (by rw [workBlock_of_head hhead hp.check, hstatics])

theorem served_shrink (hw : Work bd sha fl hb m) (hh : Holds bd sha fl m)
    (hsame : (workBlock sha fl).statics = hb.statics) (hget : hb.heads[i]? = some h)
    (hlt : buf.length < h.itemBytes) (hpos : 0 < buf.length) :
    Served bd sha hb.statics m (Function.update m h.itemName (some buf))
      (configUpdateItemDynamic bd sha .main hb i h buf fl) := by
  have hf := hw.found hget
  have hmem : h ∈ hb.heads := hf.perm.mem_iff.mpr List.mem_cons_self
  have hstop := hf.fits.stop_lt
  have hbytes := hf.fits.bytes_le
  have hs : Room.Sound bd (hb.heads.eraseIdx i) (wantLen buf.length)
      ⟨h.blkOffset, h.itemOffset, hb.usedInfo⟩ := by
    refine ⟨hf.fits.blk, by simp only [wantLen]; omega, ?_, ?_, hw.layout.bounded⟩
    · intro a ha heq
      have := hf.apart a ha heq.symm
      simp only [Span.Apart, Span.stop, UcCfgHead.span, wantLen] at this ⊢
      omega
    · intro hcompact
      have hcounted := hw.layout.counted hcompact h hmem
      refine ⟨⟨hcounted.1, ?_⟩, hf.others.counted hcompact⟩
      have := hcounted.2
      simp only [Span.stop, UcCfgHead.span] at this
      simp only [wantLen]
      omega
  have hlen : (hb.setHead i ((h.resize buf.length).setValid false)).heads.length ≤
      bd.headNumMax := by
    rw [HeadBlk.setHead, List.length_set]
    exact hw.length
  have hl := hf.others.perm (hf.live (a := (h.resize buf.length).setValid false) rfl).symm
  rw [configUpdateItemDynamic, if_pos (by omega), configUpdateItemHead, if_neg (by omega),
    configSyncMainBackup_eq hlen hl, andThen_ok]
  refine served_place (h := (h.resize buf.length).setValid true) (.inl hh) hsame hf.others hs
    ⟨?_, rfl, rfl, rfl, rfl, hf.fits.authority, ?_, ?_⟩ rfl rfl hpos (by omega)
  · simp only [setCheckCode, HeadBlk.setHead, List.set_set]
    exact hf.set_perm _
  · simpa only [setCheckCode, HeadBlk.setHead, List.length_set] using hw.length
  · rw [checkValid_setCheckCode]
    exact hw.flag

variable (sha) in
/-- The information of the searches on the blocks and the table stay where a head is
put to its room. -/
theorem placed_placeHead (hperm : ∀ a, (hb.heads.set i a).Perm (a :: heads))
    (hlen : hb.heads.length ≤ bd.headNumMax) (hflag : hb.validFlag = true)
    (hauth : h.authorityFlg ≤ UC_AUTHORITY_USER_RO) (room : Room) :
    Placed bd sha (placeHead sha hb i h room).1 (h.moveTo room) room heads where
  perm := hperm _
  used := rfl
  blk := rfl
  off := rfl
  valid := rfl
  authority := hauth
  length := by simpa [placeHead, setCheckCode, HeadBlk.setHead, HeadBlk.take] using hlen
  check := by
    rw [placeHead, checkValid_setCheckCode]
    exact hflag

/-- A rebuild leaves the head in place that was not valid, beside the valid ones. -/
theorem Found.rebuilt {is : List ℕ} {off : UcCfgHead} (hf : Found bd sha fl hb m i h)
    (hoff : off.validFlg = false) (hre : Rebuilt is (hb.setHead i off) hb') (a : UcCfgHead) :
    (hb'.heads.set i a).Perm (a :: hb'.heads.filter UcCfgHead.validFlg) := by
  have hlen := hre.heads.length_eq
  rw [HeadBlk.setHead, List.length_set] at hlen
  have hi : i < hb'.heads.length := hlen ▸ hf.lt
  have hrest : ∀ b ∈ hb'.heads.eraseIdx i, b.validFlg = true := by
    intro b hb
    obtain ⟨c, hc, hcb⟩ := (hre.heads.eraseIdx i).exists_left hb
    rw [HeadBlk.setHead, List.eraseIdx_set_eq] at hc
    rw [hcb.frame.2.2.2.2]
    exact (hf.others.fits c hc).valid
  have hself : hb'.heads[i].validFlg = false := by
    have hget := hre.heads.get (by simpa [HeadBlk.setHead] using hf.lt) hi
    simp only [HeadBlk.setHead, List.get_eq_getElem, List.getElem_set_self] at hget
    rw [hget.frame.2.2.2.2, hoff]
  refine (List.set_perm_cons_eraseIdx hi a).trans (List.Perm.cons a ?_)
  have hp := (List.getElem_cons_eraseIdx_perm hi).filter UcCfgHead.validFlg
  rwa [List.filter_cons_of_neg (by simp [hself]), List.filter_eq_self.mpr hrest] at hp

/-- The rebuild without an item: what was found of the others, and that they are at the
front of their blocks. -/
structure Cleared (bd : Build) (sha : Sha256) (hb : HeadBlk) (m : ItemName → Option (List UInt8))
    (i : ℕ) (h : UcCfgHead) (hb' : HeadBlk) (fl' : Flash) : Prop where
  head : ∀ c, fl'.head c = hb'
  check : checkValid sha hb' = true
  flag : hb'.validFlag = true
  length : hb'.heads.length ≤ bd.headNumMax
  statics : hb'.statics = hb.statics
  layout : Layout bd sha fl'.content hb'.usedInfo (hb'.heads.filter UcCfgHead.validFlg)
    (Function.update m h.itemName none)
  set_perm : ∀ a, (hb'.heads.set i a).Perm (a :: hb'.heads.filter UcCfgHead.validFlg)
  load : ∀ j, blkLoad hb'.heads j = blkLoad (hb.heads.eraseIdx i) j
  used : ∀ j ∈ bd.contentBlks, (hb'.usedInfo j).usedLen = blkLoad hb'.heads j
  front : ∀ a ∈ hb'.heads.filter UcCfgHead.validFlg, a.span.stop ≤ blkLoad hb'.heads a.blkOffset

theorem Found.cleared (hf : Found bd sha fl hb m i h) (hw : Work bd sha fl hb m) (off : UcCfgHead)
    (hoff : off.validFlg = false) :
    ∃ hb' fl', configRebuildItemContent bd sha (hb.setHead i off) fl = (.ok hb', fl') ∧
      Cleared bd sha hb m i h hb' fl' := by
  have hlen : (hb.setHead i off).heads.length ≤ bd.headNumMax := by
    rw [HeadBlk.setHead, List.length_set]
    exact hw.length
  obtain ⟨hb', fl', hrun, hre, hhead, hcheck, hl⟩ :=
    configRebuildItemContent_spec hlen (hf.others.perm (hf.live hoff).symm)
  refine ⟨hb', fl', hrun, hhead, hcheck.trans hw.flag, hre.flag.trans hw.flag,
    hre.heads.length_eq ▸ hlen, hre.statics, hl, hf.rebuilt hoff hre, fun j => ?_,
    fun j hj => by rw [hre.used j hj, blkLoad_moved hre.heads], fun a ha => ?_⟩
  · rw [← blkLoad_moved hre.heads j, ← blkLoad_filter]
    exact blkLoad_perm (hf.live hoff) j
  · have hfit := hl.fits a ha
    rw [← blkLoad_moved hre.heads]
    exact hre.front a (List.mem_of_mem_filter ha) hfit.blk hfit.valid

/-- An item grows: it finds room at once, or after the rebuild. -/
theorem served_grow (hw : Work bd sha fl hb m) (hh : Holds bd sha fl m)
    (hsame : (workBlock sha fl).statics = hb.statics) (hget : hb.heads[i]? = some h)
    (hlt : h.itemBytes < buf.length) (hle : buf.length ≤ UC_ITEM_DATA_MAX_LEN)
    (hroom : (configGetItemBlkInfo bd (growHeads bd hb i (h.resize buf.length)) buf.length).isSome ∨
      HasRoom bd (hb.heads.eraseIdx i) (wantLen buf.length)) :
    Served bd sha hb.statics m (Function.update m h.itemName (some buf))
      (configUpdateItemDynamic bd sha .main hb i h buf fl) := by
  have hf := hw.found hget
  have hauth : (h.resize buf.length).authorityFlg ≤ UC_AUTHORITY_USER_RO := hf.fits.authority
  have hpos : 0 < buf.length := by omega
  rw [configUpdateItemDynamic, if_pos (by omega), configUpdateItemHead, if_pos hlt]
  cases hfound : configGetItemBlkInfo bd (growHeads bd hb i (h.resize buf.length)) buf.length with
  | some room =>
      have hs : room.Sound bd (hb.heads.eraseIdx i) (wantLen buf.length) := by
        have hl : Layout bd sha fl.content (growHeads bd hb i (h.resize buf.length)).usedInfo
            (hb.heads.eraseIdx i) (Function.update m h.itemName none) := hf.others
        refine configGetItemBlkInfo_sound hl (fun hcompact => ?_) (wantLen_lt hle) hfound
        exact hf.live (by simp [UcCfgHead.setValid, hcompact])
      have hp : Placed bd sha (placeHead sha (growHeads bd hb i (h.resize buf.length)) i
          (h.resize buf.length) room).1 ((h.resize buf.length).moveTo room) room
          (hb.heads.eraseIdx i) := by
        have hflag : (growHeads bd hb i (h.resize buf.length)).validFlag = true := hw.flag
        refine placed_placeHead sha ?_ ?_ hflag hauth room
        · intro a
          simp only [growHeads, HeadBlk.setHead, List.set_set]
          exact hf.set_perm a
        · simpa [growHeads, HeadBlk.setHead] using hw.length
      exact served_place (h := (h.resize buf.length).moveTo room) (.inl hh) hsame hf.others hs
        hp rfl rfl hpos hle
  | none =>
      obtain ⟨hb', fl', hrun, hc⟩ := hf.cleared hw ((h.resize buf.length).setValid false) rfl
      have hno : ¬ (none : Option Room).isSome = true := by simp
      have hroom' : HasRoom bd hb'.heads (wantLen buf.length) := by
        simpa only [HasRoom, hc.load] using hroom.resolve_left (hfound ▸ hno)
      obtain ⟨room, hfound', hlt'⟩ :=
        configGetItemBlkInfo_complete hc.layout (wantLen_lt hle) hc.front hc.used hroom'
      simp only
      rw [hrun, andThen_ok, hfound']
      have hs := configGetItemBlkInfo_sound hc.layout (fun _ => List.Perm.refl _) (wantLen_lt hle)
        hfound'
      refine served_place (h := (h.resize buf.length).moveTo room) (.inr hlt') ?_ hc.layout hs
        (placed_placeHead sha hc.set_perm hc.length hc.flag hauth room) hc.statics rfl hpos hle
      rw [workBlock_of_head hc.head hc.check, hc.statics]

/-! ## An item that is lost -/

/-- The flash holds a head block without a valid head of the name. -/
structure Lost (bd : Build) (sha : Sha256) (fl : Flash) (name : ItemName) (hb : HeadBlk) :
    Prop where
  head : ∀ c, fl.head c = hb
  check : checkValid sha hb = true
  info : getUsrCfgNameInfo bd hb name = .ok none

/-- Without room the item that was to grow is lost. -/
theorem lost_grow (hw : Work bd sha fl hb m) (hget : hb.heads[i]? = some h)
    (hlt : h.itemBytes < buf.length) (hle : buf.length ≤ UC_ITEM_DATA_MAX_LEN)
    (hnone : configGetItemBlkInfo bd (growHeads bd hb i (h.resize buf.length)) buf.length = none)
    (hno : ¬ HasRoom bd (hb.heads.eraseIdx i) (wantLen buf.length)) :
    ∃ e fl' hb', configUpdateItemDynamic bd sha .main hb i h buf fl = (.error e, fl') ∧
      Lost bd sha fl' h.itemName hb' := by
  have hf := hw.found hget
  have hauth : (h.resize buf.length).authorityFlg ≤ UC_AUTHORITY_USER_RO := hf.fits.authority
  obtain ⟨hb', fl', hrun, hc⟩ := hf.cleared hw ((h.resize buf.length).setValid false) rfl
  have hlost : Lost bd sha fl' h.itemName hb' :=
    ⟨hc.head, hc.check, getUsrCfgNameInfo_none hc.length (hc.layout.name_ne (by simp))⟩
  rw [configUpdateItemDynamic, if_pos (by omega), configUpdateItemHead, if_pos hlt, hnone]
  simp only
  rw [hrun, andThen_ok]
  cases hfound : configGetItemBlkInfo bd hb' buf.length with
  | none => exact ⟨UC_ERR_FLASH_FULL, fl', hb', rfl, hlost⟩
  | some room =>
      have hs := configGetItemBlkInfo_sound hc.layout (fun _ => List.Perm.refl _) (wantLen_lt hle)
        hfound
      have hp := placed_placeHead sha hc.set_perm hc.length hc.flag hauth room
      rcases configWriteItem_spec hc.layout hs hp (by simp [UcCfgHead.moveTo, UcCfgHead.resize]) rfl
        (by omega) hle with ⟨-, hfail⟩ | ⟨hlt', -⟩
      · exact ⟨UC_ERR_PARA, fl', hb', hfail, hlost⟩
      · -- a place that does not end with its block is room
        have hroom := hasRoom_of_found hc.layout (wantLen_lt hle) hc.front hfound hlt'
        exact absurd (by simpa only [HasRoom, hc.load] using hroom) hno

end OpiaiKernel.UserCfg
