import OpiaiKernel.UserCfg.StoreSteps

/-!
# The requests and the values

What each request does to the values and to the static items, and what is read.
-/

namespace OpiaiKernel.UserCfg

variable {bd : Build} {sha : Sha256} {h : UcCfgHead} {hb hb' : HeadBlk}
  {m : ItemName → Option (List UInt8)} {buf : List UInt8} {fl : Flash} {i n : ℕ} {name : ItemName}

/-! ## Setting -/

/-- When an item is to grow, to a size that is accepted, either there is room for it at
once, or the rebuild without the item makes room. -/
def Roomy (bd : Build) (sha : Sha256) (fl : Flash) : Request → Prop
  | .set name buf => ∀ i h,
      getUsrCfgNameInfo bd (workBlock sha fl) name = .ok (some (i, h)) →
      h.itemBytes < buf.length → buf.length ≤ UC_ITEM_DATA_MAX_LEN →
      (configGetItemBlkInfo bd (growHeads bd (workBlock sha fl) i (h.resize buf.length))
        buf.length).isSome ∨
      HasRoom bd ((workBlock sha fl).heads.eraseIdx i) (wantLen buf.length)
  | _ => True

theorem served_set (hh : Holds bd sha fl m) (hroom : Roomy bd sha fl (.set name buf)) :
    Served bd sha (workBlock sha fl).statics m (Function.update m name (some buf))
      (setUserConfigDynamic bd sha fl name buf) := by
  rw [setUserConfigDynamic]
  split
  · exact .failed _ fl hh rfl
  next hsize =>
    have hpos : 0 < buf.length := by omega
    have hle : buf.length ≤ UC_ITEM_DATA_MAX_LEN := by omega
    obtain ⟨vb, hvb, hmain, hw⟩ := hh.work
    have hwork : workBlock sha fl = vb.work := by rw [workBlock, hvb]
    rw [configSetItemDynamic, hvb]
    simp only [hmain]
    cases hm : m name with
    | none =>
        rw [hw.getUsrCfgNameInfo_none hm, andThen_ok, hwork]
        exact served_addItem hw hh (by rw [hwork]) hm hpos hle
    | some v =>
        obtain ⟨i, h, hinfo, hget, rfl⟩ := hw.getUsrCfgNameInfo_some hm
        rw [hinfo, andThen_ok, hwork]
        rcases Nat.lt_trichotomy buf.length h.itemBytes with hlt | heq | hgt
        · exact served_shrink hw hh (by rw [hwork]) hget hlt hpos
        · cases hh with
          | blank head none =>
              rw [none] at hm
              exact absurd hm (by simp)
          | held hb head valid _ =>
              have hhb : vb.work = hb := by rw [← hwork, workBlock_of_head head valid]
              rw [hhb] at hw hget ⊢
              exact served_same hw head valid hget heq
        · have hroom := hroom i h (hwork ▸ hinfo) hgt hle
          rw [hwork] at hroom
          exact served_grow hw hh (by rw [hwork]) hget hgt hle hroom

/-! ## Clearing -/

theorem head_writeHead_both (hb : HeadBlk) (c : Copy) :
    ((fl.writeHead .main hb).writeHead .backup hb).head c = hb := by
  cases c <;> simp [Flash.writeHead]

theorem swapLast_perm {l : List UcCfgHead} (hi : i < l.length) :
    ((if l.length ≠ 1 ∧ i ≠ l.length - 1 then l[l.length - 1]?.elim l (l.set i) else
      l).dropLast).Perm (l.eraseIdx i) := by
  rcases List.eq_nil_or_concat l with rfl | ⟨ys, z, rfl⟩
  · simp at hi
  · rw [List.concat_eq_append] at hi ⊢
    rw [List.length_append, List.length_singleton] at hi
    by_cases hlast : i = ys.length
    · subst hlast
      rw [List.eraseIdx_append_of_length_le (Nat.le_refl _)]
      simp
    · have hlt : i < ys.length := by omega
      rw [List.length_append, List.length_singleton, if_pos ⟨by omega, by omega⟩,
        Nat.add_sub_cancel, List.getElem?_concat_length, Option.elim_some,
        List.set_append_left _ _ hlt, List.dropLast_concat, List.eraseIdx_append_of_lt_length hlt]
      exact (List.set_perm_cons_eraseIdx hlt z).trans (List.perm_append_singleton z _).symm

theorem served_clearItem (hw : Work bd sha fl hb m) (hget : hb.heads[i]? = some h) :
    Served bd sha hb.statics m (Function.update m h.itemName none)
      (configClearItem bd sha .main hb i h fl) := by
  have hf := hw.found hget
  have hbytes := hf.fits.bytes_pos
  have hle := hf.fits.bytes_le
  have hmem : h ∈ hb.heads := hf.perm.mem_iff.mpr List.mem_cons_self
  have hclear : (List.replicate h.itemBytes DEVDRV_UC_FLASH_DEFAULT_VAL).length = h.itemBytes :=
    List.length_replicate
  generalize hv : List.replicate h.itemBytes DEVDRV_UC_FLASH_DEFAULT_VAL = v at hclear
  have hupdate : configUpdateItemContent bd sha fl .main h v =
      .ok (Ring.fill (fl.content .main h.blkOffset) h.itemOffset (v ++ sha.item v)) := by
    rw [configUpdateItemContent, hf.fits.headCheck, ← hclear, List.take_length]
    rfl
  have hlen := hw.length
  have hlt := hf.lt
  have hhead : ∃ hb', configClearItemHead bd sha hb i = .ok hb' ∧
      hb'.heads.Perm (hb.heads.eraseIdx i) ∧ hb'.usedInfo = hb.usedInfo ∧
      hb'.statics = hb.statics ∧ checkValid sha hb' = true := by
    rw [configClearItemHead, if_neg (by omega)]
    refine ⟨_, rfl, swapLast_perm hlt, rfl, rfl, ?_⟩
    rw [checkValid_setCheckCode]
    exact hw.flag
  obtain ⟨hb', hrun, hperm, hused, hstatics, hcheck⟩ := hhead
  rw [configClearItem, if_neg (by omega)]
  simp only
  rw [hv, hupdate, andThen_ok, hrun, andThen_ok]
  refine .done _ (.held hb' (by simp) hcheck ⟨validFlag_of_checkValid hcheck, ?_, ?_⟩) ?_
  · rw [hperm.length_eq, List.length_eraseIdx_of_lt hlt]
    omega
  · have hwritten : Layout bd sha (configWriteFlashHeadContent fl (some hb') h.blkOffset (Ring.fill
        (fl.content .main h.blkOffset) h.itemOffset (v ++ sha.item v))).content hb.usedInfo
        (h :: hb.heads.eraseIdx i) (Function.update (Function.update m h.itemName none) h.itemName
          (some v)) :=
      hf.others.write hf.fits (hf.others.name_ne (by simp)) hf.apart
        (fun hcompact => hw.layout.counted hcompact h hmem) hclear .main (by simp)
        (fun c j hj => by rw [content_configWriteFlashHeadContent, if_neg hj])
    have hl := hwritten.tail
    rw [Function.update_idem, Function.update_idem] at hl
    rw [hused]
    exact hl.perm hperm.symm
  · rw [workBlock_of_head (by simp) hcheck, hstatics]

theorem served_clear (hh : Holds bd sha fl m) :
    Served bd sha (workBlock sha fl).statics m (Function.update m name none)
      (clearUserConfigDynamic bd sha fl name) := by
  rw [clearUserConfigDynamic]
  cases hh with
  | blank head none =>
      have hvb : configGetValidBlock sha fl = (⟨.invalid, .main, fl.head .backup⟩, fl) := by
        simp [configGetValidBlock, head]
      have hinit : ∀ c, ((fl.writeHead .main initBlock).writeHead .backup initBlock).head c =
          initBlock := head_writeHead_both initBlock
      rw [workBlock, hvb]
      simp only [if_true]
      refine .failed _ _ ?_ ?_
      · by_cases hcheck : checkValid sha initBlock = true
        · exact .held initBlock hinit hcheck (work_initBlock none)
        · exact .blank (fun c => by rw [hinit c]; simpa using hcheck) none
      · by_cases hcheck : checkValid sha initBlock = true
        · rw [workBlock_of_head hinit hcheck]
          rfl
        · simp [workBlock, configGetValidBlock, hinit, hcheck, ValidBlock.work]
  | held hb head valid hw =>
      have hvb : configGetValidBlock sha fl = (⟨.all, .main, hb⟩, fl) := by
        simp [configGetValidBlock, head, valid]
      rw [workBlock_of_head head valid, hvb]
      simp only [reduceCtorEq, if_false]
      have hh : Holds bd sha fl m := .held hb head valid hw
      cases hm : m name with
      | none =>
          rw [hw.getUsrCfgNameInfo_none hm, andThen_ok]
          exact .failed _ fl hh (by rw [workBlock_of_head head valid])
      | some v =>
          obtain ⟨i, h, hinfo, hget, rfl⟩ := hw.getUsrCfgNameInfo_some hm
          rw [hinfo, andThen_ok]
          exact served_clearItem hw hget

/-! ## Static items -/

theorem Work.holds_statics (hw : Work bd sha fl hb m) (statics : Block) :
    Holds bd sha ((fl.writeHead .main (setCheckCode sha { hb with statics := statics })).writeHead
      .backup (setCheckCode sha { hb with statics := statics })) m := by
  refine .held _ (head_writeHead_both _) ?_ ⟨hw.flag, hw.length, hw.layout⟩
  rw [checkValid_setCheckCode]
  exact hw.flag

theorem holds_configUpdate (hh : Holds bd sha fl m) (item : UserConfigItem) (buf : List UInt8)
    (effect : Bool) :
    Holds bd sha (configUpdate sha fl item buf effect).2 m := by
  obtain ⟨vb, hvb, -, hw⟩ := hh.work
  rw [configUpdate, hvb]
  simp only
  rw [configSetItem]
  split
  · exact hh
  · rw [andThen_ok]
    exact hw.holds_statics _

/-- What a dynamic get returns for a value. -/
def readResult (bufSize : ℕ) : Option (List UInt8) → Except UcErr (List UInt8)
  | none => .error UC_ERR_HEAD_NOT_FOUND
  | some v => if bufSize < v.length then .error UC_ERR_GET_ITEM_FAIL else .ok v

theorem configGetItemFromHead_none (hinfo : getUsrCfgNameInfo bd hb name = .ok none) :
    configGetItemFromHead bd sha fl hb .main name = .error UC_ERR_HEAD_NOT_FOUND := by
  rw [configGetItemFromHead, hinfo]
  rfl

theorem Work.configGetItemFromHead_some {v : List UInt8} (hw : Work bd sha fl hb m)
    (hm : m name = some v) : configGetItemFromHead bd sha fl hb .main name = .ok ⟨v, none⟩ := by
  obtain ⟨i, h, hinfo, hget, rfl⟩ := hw.getUsrCfgNameInfo_some hm
  have hmem := List.mem_of_getElem? hget
  have hfit := hw.layout.fits h hmem
  obtain ⟨w, hw', hstored⟩ := hw.layout.stored h hmem
  obtain rfl : v = w := Option.some.inj (hm.symm.trans hw')
  have hdata := (hstored .main).data_digest
  have hcontent : configGetItemContent bd sha fl h .main = .ok v := by
    rw [configGetItemContent, hfit.headCheck]
    simp [bind, Except.bind, hdata.1, hdata.2]
  rw [configGetItemFromHead, hinfo]
  simp [bind, Except.bind, hcontent]

theorem configGetItemDynamic_none (hinfo : getUsrCfgNameInfo bd hb name = .ok none)
    (hhead : fl.head .backup = hb) (n : ℕ) :
    configGetItemDynamic bd sha fl ⟨.all, .main, hb⟩ name n = .error UC_ERR_HEAD_NOT_FOUND := by
  rw [configGetItemDynamic, if_neg (by simp)]
  simp only [configGetItemFromHead_none hinfo, hhead]
  rfl

theorem Work.configGetItemDynamic_some {v : List UInt8} (hw : Work bd sha fl hb m)
    (hm : m name = some v) (n : ℕ) :
    configGetItemDynamic bd sha fl ⟨.all, .main, hb⟩ name n =
      if n < v.length then .error UC_ERR_GET_ITEM_FAIL else .ok ⟨v, none⟩ := by
  rw [configGetItemDynamic, if_neg (by simp)]
  simp only [hw.configGetItemFromHead_some hm]
  rfl

theorem configGetValidBlock_of_head (hhead : ∀ c, fl.head c = hb)
    (hcheck : checkValid sha hb = true) : configGetValidBlock sha fl = (⟨.all, .main, hb⟩, fl) := by
  simp [configGetValidBlock, hhead, hcheck]

theorem getUserConfigDynamic_eq (hh : Holds bd sha fl m) (name : ItemName) (n : ℕ) :
    getUserConfigDynamic bd sha fl name n = (readResult n (m name), fl) := by
  rw [getUserConfigDynamic]
  cases hh with
  | blank head none =>
      simp [configGetValidBlock, head, configGetItemDynamic, none, readResult]
  | held hb head valid hw =>
      rw [configGetValidBlock_of_head head valid]
      cases hm : m name with
      | none =>
          simp only [configGetItemDynamic_none (hw.getUsrCfgNameInfo_none hm) (head .backup)]
          rfl
      | some v =>
          simp only [hw.configGetItemDynamic_some hm, readResult]
          split <;> rfl

/-! ## A lost item -/

theorem Lost.getUserConfigDynamic_eq (hlost : Lost bd sha fl name hb) (n : ℕ) :
    getUserConfigDynamic bd sha fl name n = (.error UC_ERR_HEAD_NOT_FOUND, fl) := by
  rw [getUserConfigDynamic, configGetValidBlock_of_head hlost.head hlost.check]
  simp only [configGetItemDynamic_none hlost.info (hlost.head .backup)]
  rfl

/-- A static update does not bring the item back. -/
theorem Lost.configUpdate (item : UserConfigItem) (buf : List UInt8)
    (hlost : Lost bd sha fl name hb) (hbuf : buf.length = item.len - 1) (effect : Bool) :
    ∃ fl' hb', UserCfg.configUpdate sha fl item buf effect = (.ok (), fl') ∧
      Lost bd sha fl' name hb' := by
  rw [UserCfg.configUpdate, configGetValidBlock_of_head hlost.head hlost.check]
  simp only [ValidBlock.work, reduceCtorEq, if_false]
  rw [configSetItem, if_neg (by simp [hbuf]), andThen_ok]
  refine ⟨_, _, rfl, head_writeHead_both _, ?_, hlost.info⟩
  have hflag := validFlag_of_checkValid hlost.check
  rw [checkValid_setCheckCode]
  exact hflag

/-- A set that is not roomy fails, and the item is lost. -/
theorem lost_of_not_roomy (hh : Holds bd sha fl m) (hno : ¬ Roomy bd sha fl (.set name buf)) :
    ∃ e fl' hb' v, setUserConfigDynamic bd sha fl name buf = (.error e, fl') ∧
      Lost bd sha fl' name hb' ∧ m name = some v := by
  simp only [Roomy, not_forall, not_or, Bool.not_eq_true, Option.isSome_eq_false_iff,
    Option.isNone_iff_eq_none] at hno
  obtain ⟨i, h, hinfo, hlt, hle, hnone, hno⟩ := hno
  obtain ⟨vb, hvb, hmain, hw⟩ := hh.work
  have hwork : workBlock sha fl = vb.work := by rw [workBlock, hvb]
  rw [hwork] at hinfo hnone hno
  cases hm : m name with
  | none =>
      rw [hw.getUsrCfgNameInfo_none hm] at hinfo
      simp at hinfo
  | some v =>
      obtain ⟨i', h', hinfo', hget, rfl⟩ := hw.getUsrCfgNameInfo_some hm
      obtain ⟨rfl, rfl⟩ : i' = i ∧ h' = h := by
        rw [hinfo'] at hinfo
        simpa using hinfo
      obtain ⟨e, fl', hb', hrun, hlost⟩ := lost_grow hw hget hlt hle hnone hno
      refine ⟨e, fl', hb', v, ?_, hlost, rfl⟩
      rw [setUserConfigDynamic, if_neg (by omega), configSetItemDynamic, hvb]
      simp only [hmain]
      rw [hinfo', andThen_ok]
      exact hrun

end OpiaiKernel.UserCfg
