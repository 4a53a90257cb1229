import Mathlib.Tactic.Common
import OpiaiKernel.Hdmi.BlockBounds

/-!
# What is known after a data block

Which formats and audio descriptors a data block adds depends on its bytes and on
how many are known, and so does what the next blocks read.
-/

namespace OpiaiKernel.Hdmi

open EdidParser Logged

variable {b : ℕ → UInt8} {data len : ℕ} {s : Sink} {k : Known}

section Counted

theorem known_after_edidAudioLoop {n i : ℕ} (hk : s.cap.known = k) :
    ((edidAudioLoop b data len n i).after s).cap.known =
      { k with audio := audioNum b n (data + 3 * i) k.audio } := by
  induction n generalizing i s k with
  | zero => exact hk
  | succ n ih =>
      have hnum : s.cap.audioInfoNum = k.audio := congrArg Known.audio hk
      rw [edidAudioLoop, audioNum, after_getCap, hnum]
      by_cases hfull : HDMI_EDID_MAX_AUDIO_CAP_COUNT ≤ k.audio % 2 ^ 8
      · rw [if_pos hfull, if_pos hfull]
        exact hk
      rw [if_neg hfull, if_neg hfull, after_fetch, after_store]
      by_cases hfmt : audioFmtValid (frmCodeOf (b (data + 3 * i)))
      · rw [if_pos hfmt, if_pos hfmt, after_setCap, after_fetch, after_bind, after_fetch,
          after_bind]
        have hi : data + 3 * i + 3 = data + 3 * (i + 1) := by omega
        rw [hi]
        refine ih (k := { k with audio := (k.audio + 1) % 2 ^ 32 }) ?_
        rw [known_after_audio, ← hk]
        rfl
      · rw [if_neg hfmt, if_neg hfmt]
        exact hk

theorem known_setNativeFormat (vic : ℕ) (c : HdmiSinkCapability) :
    (setNativeFormat vic c).known = c.known := by
  rw [setNativeFormat]
  split <;> rfl

theorem known_addFormat (vic : ℕ) (t : Sink) : (t.mapCap (addFormat vic)).cap.known =
    { t.cap.known with formats := t.cap.known.formats + 1 } := rfl

theorem known_after_edidVideoLoop {n i native : ℕ} (hk : s.cap.known = k) :
    ((edidVideoLoop b data len n i native).after s).cap.known =
      { k with formats := formatsNum (· ≠ 0) b n (data + i) k.formats } := by
  induction n generalizing i native s k with
  | zero => exact hk
  | succ n ih =>
      have hnum : s.cap.supportVicNum = k.formats := congrArg Known.formats hk
      rw [edidVideoLoop, formatsNum, after_fetch, after_getCap, hnum]
      by_cases hfull : HDMI_EDID_MAX_VIC_COUNT ≤ k.formats
      · rw [if_pos hfull, if_pos hfull]
        exact hk
      rw [if_neg hfull, if_neg hfull]
      by_cases hzero : b (data + i) = 0
      · rw [if_pos hzero, if_neg (not_not.mpr hzero), after_bind]
        exact ih hk
      · rw [if_neg hzero, if_pos hzero, after_bind, after_store]
        refine ih (k := { k with formats := k.formats + 1 }) ?_
        have hkeep (c : Prop) [Decidable c] (vic : ℕ) :
            ((Logged.when c (setCap (setNativeFormat vic))).after s).cap.known = k :=
          (keeps_when (keeps_setCap (known_setNativeFormat vic)) s).trans hk
        rw [known_addFormat, hkeep]

theorem known_after_edidVicParse {n i : ℕ} (hk : s.cap.known = k) :
    ((edidVicParse b data len n i).after s).cap.known =
      { k with formats := formatsNum (· < 5) b n (data + i) k.formats } := by
  induction n generalizing i s k with
  | zero => exact hk
  | succ n ih =>
      have hnum : s.cap.supportVicNum = k.formats := congrArg Known.formats hk
      rw [edidVicParse, formatsNum, after_fetch, after_getCap, hnum]
      by_cases hfull : HDMI_EDID_MAX_VIC_COUNT ≤ k.formats
      · rw [if_neg (not_lt.mpr hfull), if_pos hfull]
        exact hk
      rw [if_pos (not_le.mp hfull), if_neg hfull, after_bind, after_when, Nat.add_assoc data]
      by_cases hbyte : b (data + i) < 5
      · rw [if_pos hbyte, if_pos hbyte]
        refine ih (k := { k with formats := k.formats + 1 }) ?_
        rw [← hk]
        rfl
      · rw [if_neg hbyte, if_neg hbyte]
        exact ih hk

theorem known_after_edidY420VideoLoop {n i : ℕ} (hk : s.cap.known = k) :
    ((edidY420VideoLoop b data len n i).after s).cap.known =
      { k with only420 :=
        formatsNum (fun vic => ¬ y420VicInvalid vic) b n (data + (1 + i)) k.only420 } := by
  induction n generalizing i s k with
  | zero => exact hk
  | succ n ih =>
      have hnum : s.cap.onlySupportY420VicNum = k.only420 := congrArg Known.only420 hk
      rw [edidY420VideoLoop, formatsNum, after_fetch, after_getCap, hnum]
      by_cases hfull : HDMI_EDID_MAX_VIC_COUNT ≤ k.only420
      · rw [if_pos hfull, if_pos hfull]
        exact hk
      rw [if_neg hfull, if_neg hfull, Nat.add_assoc data, Nat.add_assoc 1]
      by_cases hbad : y420VicInvalid (b (data + (1 + i)))
      · rw [if_pos hbad, if_neg (not_not.mpr hbad), after_bind]
        exact ih hk
      · rw [if_neg hbad, if_pos hbad, after_store]
        refine ih (k := { k with only420 := k.only420 + 1 }) ?_
        rw [← hk]
        rfl

end Counted

section Kept

theorem keeps_putFlags {β : Type} {g : HdmiSinkCapability → β} {array : CapArray} {byte : UInt8}
    {put : ℕ → Bool → HdmiSinkCapability → HdmiSinkCapability}
    (hput : ∀ i v c, g (put i v c) = g c) {table : List (ℕ × UInt8)} :
    KeepsCap g (putFlags array put byte table) := by
  induction table with
  | nil => exact keeps_pure _
  | cons e rest ih => exact keeps_bind (keeps_store (hput _ _)) fun _ => ih

theorem keeps_edidY420AllLoop {n i : ℕ} : KeepsCap (·.known) (edidY420AllLoop n i) := by
  induction n generalizing i with
  | zero => exact keeps_pure _
  | succ n ih =>
      exact keeps_bind keeps_getCap fun _ =>
        keeps_bind (keeps_when (keeps_store fun _ => rfl)) fun _ => ih

theorem keeps_edidY420MapLoop {n i : ℕ} :
    KeepsCap (·.known) (edidY420MapLoop b data len n i) := by
  induction n generalizing i with
  | zero => exact keeps_pure _
  | succ n ih =>
      exact keeps_bind keeps_fetch fun _ => keeps_bind keeps_getCap fun _ =>
        keeps_bind (keeps_when (keeps_store fun _ => rfl)) fun _ => ih

theorem keeps_edidY420CapMapDb : KeepsCap (·.known) (edidY420CapMapDb b data len) := by
  refine keeps_bind keeps_getCap fun cap => ?_
  split
  · exact keeps_edidY420AllLoop
  · exact keeps_edidY420MapLoop

theorem keeps_edidHfvs21Db : KeepsCap (·.known) (edidHfvs21Db b data len) :=
  keeps_bind keeps_fetch fun _ => keeps_bind keeps_fetch fun _ => keeps_bind keeps_fetch fun _ =>
    keeps_bind keeps_fetch fun _ => keeps_bind keeps_fetch fun _ => keeps_bind keeps_fetch fun _ =>
      keeps_setCap fun _ => rfl

theorem keeps_edidHfvsDb : KeepsCap (·.known) (edidHfvsDb b data len) := by
  rw [edidHfvsDb]
  split
  · exact keeps_bind (keeps_warn _) fun _ => keeps_pure _
  · exact keeps_bind keeps_fetch fun _ => keeps_bind (keeps_when (keeps_warn _)) fun _ =>
      keeps_bind keeps_fetch fun _ => keeps_bind (keeps_setCap fun _ => rfl) fun _ =>
      keeps_bind keeps_fetch fun _ => keeps_bind keeps_fetch fun _ =>
      keeps_bind (keeps_setCap fun _ => rfl) fun _ =>
      keeps_bind (keeps_when keeps_edidHfvs21Db) fun _ => keeps_pure _

theorem known_put3dType (i : ℕ) (v : Bool) (c : HdmiSinkCapability) :
    (put3dType i v c).known = c.known := rfl

theorem keeps_edid3dParse {offset : ℕ} : KeepsCap (·.known) (edid3dParse b data len offset) :=
  keeps_bind keeps_fetch fun _ => keeps_bind (keeps_putFlags known_put3dType) fun _ =>
    keeps_bind keeps_fetch fun _ => keeps_putFlags known_put3dType

theorem keeps_edidCecPhyAddrPrase : KeepsCap (·.known) (edidCecPhyAddrPrase b data len) :=
  keeps_bind keeps_fetch fun _ => keeps_bind keeps_fetch fun _ => keeps_setCap fun _ => rfl

theorem known_putSpeaker (i : ℕ) (v : Bool) (c : HdmiSinkCapability) :
    (putSpeaker i v c).known = c.known := rfl

theorem keeps_edidSpeakerDb : KeepsCap (·.known) (edidSpeakerDb b data len) := by
  rw [edidSpeakerDb]
  split
  · exact keeps_bind (keeps_warn _) fun _ => keeps_bind (keeps_warn _) fun _ => keeps_pure _
  · exact keeps_bind keeps_fetch fun _ => keeps_bind (keeps_putFlags known_putSpeaker) fun _ =>
      keeps_bind keeps_fetch fun _ => keeps_bind (keeps_putFlags known_putSpeaker) fun _ =>
      keeps_pure _

theorem keeps_edidColorimetryDb : KeepsCap (·.known) (edidColorimetryDb b data len) := by
  rw [edidColorimetryDb]
  split
  · exact keeps_bind (keeps_warn _) fun _ => keeps_pure _
  · exact keeps_bind keeps_fetch fun _ => keeps_bind keeps_fetch fun _ =>
      keeps_bind (keeps_setCap fun _ => rfl) fun _ => keeps_pure _

theorem keeps_edidVideoCapDb : KeepsCap (·.known) (edidVideoCapDb b data len) :=
  keeps_when (keeps_bind keeps_fetch fun _ => keeps_setCap fun _ => rfl)

end Kept

section Vendor

theorem keeps_edidLatencyParse {offset : ℕ} :
    KeepsCap (·.known) (edidLatencyParse b data len offset) :=
  keeps_bind keeps_getCap fun _ =>
    keeps_bind (keeps_when (keeps_bind keeps_fetch fun _ => keeps_bind keeps_fetch fun _ =>
      keeps_setCap fun _ => rfl)) fun _ =>
    keeps_bind (keeps_when (keeps_bind keeps_fetch fun _ => keeps_bind keeps_fetch fun _ =>
      keeps_setCap fun _ => rfl)) fun _ => keeps_pure _

theorem known_after_edidVicFields {offset n : ℕ} (hk : s.cap.known = k) :
    ((edidVicFields b data len n offset).after s).cap.known =
      { k with formats :=
        if n + offset ≤ len then formatsNum (· < 5) b n (data + offset) k.formats
        else k.formats } := by
  rw [edidVicFields]
  split
  · exact known_after_edidVicParse hk
  · exact hk

theorem known_setSupport3d (flags : UInt8) (c : HdmiSinkCapability) :
    (setSupport3d flags c).known = c.known := rfl

/-- The formats that `vendorNum` counts, once the block is known to be of HDMI. -/
theorem known_after_edidVsdbPraseStep9 (hieee : IsIeee b data 0x03 0x0c 0x00)
    (hlat : s.cap.latencyFieldsPresent = edidFlagsMaskCheck (b (data + 7)) 0x80)
    (hilat : s.cap.iLatencyFieldsPresent = edidFlagsMaskCheck (b (data + 7)) 0x40)
    (hk : s.cap.known = k) :
    ((edidVsdbPraseStep9 b data len).after s).cap.known =
      { k with formats := vendorNum b data len k.formats } := by
  have hk' := (@keeps_edidLatencyParse b data len 8 s).trans hk
  have hflags (t : Sink) (ht : t.cap.known = k) (p : Prop) [Decidable p] (byte : UInt8) :
      ((Logged.when p (setCap (setSupport3d byte))).after t).cap.known = k :=
    (keeps_when (keeps_setCap (known_setSupport3d byte)) t).trans ht
  rw [edidVsdbPraseStep9, after_bind, value_edidLatencyParse, hlat, hilat, ← flags3dOffset,
    after_fetch, after_getCap, after_bind, vendorNum, after_when]
  by_cases h10 : 10 ≤ len
  · rw [if_pos h10, after_fetch, after_bind]
    refine ((keeps_when keeps_edid3dParse _).trans
      (known_after_edidVicFields (hflags _ hk' _ _))).trans ?_
    simp only [h10, hieee, true_and]
    rfl
  · rw [if_neg h10, if_neg fun h => h10 h.1]
    exact hflags _ hk' _ _

theorem vendorNum_of_short {num : ℕ} (h : len < 10) : vendorNum b data len num = num :=
  if_neg fun hall => absurd hall.1 (not_le.mpr h)

theorem known_after_edidVsdb (hieee : IsIeee b data 0x03 0x0c 0x00) (hk : s.cap.known = k) :
    ((edidVsdb b data len).after s).cap.known =
      { k with formats := vendorNum b data len k.formats } := by
  rw [edidVsdb]
  by_cases h5 : len < 5
  · rw [if_pos h5, vendorNum_of_short (by omega)]
    exact hk
  have hfield {c : Prop} [Decidable c] {i : ℕ}
      {f : UInt8 → HdmiSinkCapability → HdmiSinkCapability}
      (hf : ∀ byte c, (f byte c).known = c.known) {t : Sink} (ht : t.cap.known = k) :
      ((Logged.when c (fetch b data len i >>= fun byte => setCap (f byte))).after t).cap.known =
        k :=
    (keeps_when (keeps_bind keeps_fetch fun byte => keeps_setCap (hf byte)) t).trans ht
  have hcec := (@keeps_edidCecPhyAddrPrase b data len s).trans hk
  have htmds := hfield (c := 7 ≤ len) (i := 6) (f := setMaxTmdsClock) (fun _ _ => rfl)
    (hfield (c := 6 ≤ len) (i := 5) (f := edidDeepColorPrase) (fun _ _ => rfl) hcec)
  have hpresent := hfield (c := 8 ≤ len) (i := 7) (f := setPresent) (fun _ _ => rfl) htmds
  rw [if_neg h5, after_bind, after_bind, after_bind, after_bind, after_bind, after_when]
  by_cases h9 : 9 ≤ len
  · rw [if_pos h9, after_when, if_pos (show 8 ≤ len by omega)]
    exact known_after_edidVsdbPraseStep9 hieee rfl rfl htmds
  · rw [if_neg h9, vendorNum_of_short (by omega)]
    exact hpresent

theorem known_after_edidVendorDataBlockParse (hk : s.cap.known = k) :
    ((edidVendorDataBlockParse b data len).after s).cap.known =
      { k with formats := vendorNum b data len k.formats } := by
  rw [edidVendorDataBlockParse]
  by_cases h3 : 3 ≤ len
  · rw [if_pos h3, after_bind, after_bind, value_ieeeIs, after_ieeeIs, value_ieeeIs, after_ieeeIs]
    simp only [decide_eq_true_eq]
    by_cases hV : IsIeee b data 0x03 0x0c 0x00
    · rw [if_pos hV, after_setCap]
      exact known_after_edidVsdb hV hk
    have hnum : vendorNum b data len k.formats = k.formats := if_neg fun h => hV h.2.1
    rw [if_neg hV, hnum]
    split
    · exact (keeps_edidHfvsDb s).trans hk
    · exact hk
  · rw [if_neg h3, vendorNum_of_short (by omega)]
    exact hk

end Vendor

theorem known_after_edidExtDataBlockParse :
    ((edidExtDataBlockParse b data len).after s).cap.known =
      if b data = 0x0e then { s.cap.known with
        only420 := formatsNum (fun vic => ¬ y420VicInvalid vic) b (len - 1) (data + 1)
          s.cap.known.only420 }
      else s.cap.known := by
  rw [edidExtDataBlockParse, after_fetch, Nat.add_zero data]
  by_cases h5 : b data = 0x05
  · rw [if_pos h5, if_neg (by rw [h5]; decide)]
    exact keeps_edidColorimetryDb s
  rw [if_neg h5]
  by_cases he : b data = 0x0e
  · rw [if_pos he, if_pos he, after_bind, after_when]
    split
    · exact known_after_edidY420VideoLoop rfl
    · next h0 =>
      rw [not_not.mp h0]
      rfl
  rw [if_neg he, if_neg he]
  split_ifs
  · exact keeps_edidY420CapMapDb s
  · exact keeps_edidVideoCapDb s
  · rfl

theorem known_after_edidDbParse (dbTag : ℕ) (hlen : len ≤ 31) :
    ((edidDbParse b dbTag data len).after s).cap.known =
      knownAfter b s.cap.known dbTag data len := by
  rw [edidDbParse, knownAfter]
  by_cases h1 : dbTag = 1
  · rw [if_pos h1, if_pos h1, edidAudioDb, if_neg (by omega), after_bind]
    exact known_after_edidAudioLoop rfl
  rw [if_neg h1, if_neg h1]
  by_cases h2 : dbTag = 2
  · rw [if_pos h2, if_pos h2, edidVideoDb, after_bind, after_setCap]
    exact (known_setNativeFormat ..).trans (known_after_edidVideoLoop rfl)
  rw [if_neg h2, if_neg h2]
  by_cases h3 : dbTag = 3
  · rw [if_pos h3, if_pos h3]
    exact known_after_edidVendorDataBlockParse rfl
  rw [if_neg h3, if_neg h3]
  by_cases h4 : dbTag = 4
  · rw [if_pos h4, if_neg (by omega)]
    exact keeps_edidSpeakerDb s
  rw [if_neg h4]
  by_cases h7 : dbTag = 7
  · rw [if_pos h7, known_after_edidExtDataBlockParse]
    simp only [h7, true_and]
  · rw [if_neg h7, if_neg fun h => h7 h.1]
    rfl

section Value

theorem value_edidVsdb : (edidVsdb b data len).value s = .success := by
  rw [edidVsdb]
  split <;> rfl

theorem value_edidHfvsDb : (edidHfvsDb b data len).value s = .success := by
  rw [edidHfvsDb]
  split <;> rfl

theorem value_edidVendorDataBlockParse :
    (edidVendorDataBlockParse b data len).value s = .success := by
  rw [edidVendorDataBlockParse]
  split
  · rw [value_bind, value_bind]
    split
    · exact value_edidVsdb
    · split
      · exact value_edidHfvsDb
      · rfl
  · rfl

theorem value_edidExtDataBlockParse : (edidExtDataBlockParse b data len).value s = .success := by
  rw [edidExtDataBlockParse, value_fetch]
  split
  · rw [edidColorimetryDb]
    split <;> rfl
  · split_ifs <;> rfl

/-- No data block is long enough for its parser to fail. -/
theorem value_edidDbParse (dbTag : ℕ) (hlen : len ≤ 31) :
    (edidDbParse b dbTag data len).value s = .success := by
  rw [edidDbParse]
  split
  · rw [edidAudioDb, if_neg (by omega)]
    rfl
  split
  · rfl
  split
  · exact value_edidVendorDataBlockParse
  split
  · rw [edidSpeakerDb]
    split <;> rfl
  split
  · exact value_edidExtDataBlockParse
  · rfl

end Value

end OpiaiKernel.Hdmi
