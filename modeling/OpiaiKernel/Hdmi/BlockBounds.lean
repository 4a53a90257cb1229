import Mathlib.Tactic.Common
import OpiaiKernel.Hdmi.BlockReads

/-!
# The bounds of the data blocks

Each parser stays among its own bytes, and its block inside the extension block,
if and only if the number of bytes that it reads is within both; the arrays are
written below their sizes in any case.
-/

namespace OpiaiKernel.Hdmi

open EdidParser Logged

variable {b : ℕ → UInt8} {data len : ℕ} {s : Sink}

section Flags

variable {array : CapArray} {byte : UInt8}

theorem every_fillFlags {put : ℕ → ℕ → HdmiSinkCapability → HdmiSinkCapability}
    {table : List (UInt8 × ℕ)} {count : ℕ} (h : count + table.length ≤ array.size) :
    Every Access.Inside (fillFlags array put byte table count) s := by
  induction table generalizing count s with
  | nil => exact every_pure _
  | cons e rest ih =>
      rw [List.length_cons] at h
      rw [fillFlags]
      split
      · rw [every_store_bind]
        exact ⟨by omega, ih (by omega)⟩
      · exact ih (by omega)

theorem keeps_fillFlags {β : Type} {g : HdmiSinkCapability → β}
    {put : ℕ → ℕ → HdmiSinkCapability → HdmiSinkCapability}
    (hput : ∀ i v c, g (put i v c) = g c) {table : List (UInt8 × ℕ)} {count : ℕ} :
    KeepsCap g (fillFlags array put byte table count) := by
  induction table generalizing count with
  | nil => exact keeps_pure _
  | cons e rest ih =>
      rw [fillFlags]
      split
      · exact keeps_bind (keeps_store (hput _ _)) fun _ => ih
      · exact ih

theorem every_putFlags {put : ℕ → Bool → HdmiSinkCapability → HdmiSinkCapability}
    {table : List (ℕ × UInt8)} (h : ∀ e ∈ table, e.1 < array.size) :
    Every Access.Inside (putFlags array put byte table) s := by
  induction table generalizing s with
  | nil => exact every_pure _
  | cons e rest ih =>
      rw [List.forall_mem_cons] at h
      rw [putFlags, every_store_bind]
      exact ⟨h.1, ih h.2⟩

end Flags

section Audio

theorem every_edidAudioRate {byte : UInt8} {frmCode cur : ℕ} :
    Every Access.Inside (edidAudioRate byte frmCode cur) s := by
  rw [edidAudioRate, every_bind]
  refine ⟨every_fillFlags ?_, inside_setCap⟩
  rw [sampleRates]
  split <;> decide

theorem every_edidAudioDepthAndMaxRate {byte : UInt8} {frmCode cur : ℕ} :
    Every Access.Inside (edidAudioDepthAndMaxRate byte frmCode cur) s := by
  rw [edidAudioDepthAndMaxRate]
  split_ifs
  · rw [every_bind]
    exact ⟨every_fillFlags (by decide), inside_setCap⟩
  · exact inside_setCap
  · exact every_pure _

theorem keeps_edidAudioRate {byte : UInt8} {frmCode cur : ℕ} :
    KeepsCap (·.known) (edidAudioRate byte frmCode cur) := by
  refine keeps_bind (keeps_fillFlags ?_) fun _ => keeps_setCap fun _ => rfl
  intro i v c
  rfl

theorem keeps_edidAudioDepthAndMaxRate {byte : UInt8} {frmCode cur : ℕ} :
    KeepsCap (·.known) (edidAudioDepthAndMaxRate byte frmCode cur) := by
  rw [edidAudioDepthAndMaxRate]
  split_ifs
  · refine keeps_bind (keeps_fillFlags ?_) fun _ => keeps_setCap fun _ => rfl
    intro i v c
    rfl
  · exact keeps_setCap fun _ => rfl
  · exact keeps_pure _

/-- One descriptor has been entered, and its two other bytes have been used. -/
theorem known_after_audio {byte1 byte2 : UInt8} {frmCode cur : ℕ} :
    ((edidAudioDepthAndMaxRate byte2 frmCode cur).after
      ((edidAudioRate byte1 frmCode cur).after s)).cap.known = s.cap.known :=
  (keeps_edidAudioDepthAndMaxRate _).trans (keeps_edidAudioRate _)

theorem every_edidAudioLoop {n i num : ℕ} (hnum : s.cap.audioInfoNum = num)
    (h : Fits data len (3 * i)) :
    Every Access.Inside (edidAudioLoop b data len n i) s ↔
      Fits data len (3 * i + audioRead b n (data + 3 * i) num) := by
  induction n generalizing i num s with
  | zero => exact iff_of_true (every_pure _) h
  | succ n ih =>
      rw [edidAudioLoop, audioRead, every_getCap, hnum]
      by_cases hfull : HDMI_EDID_MAX_AUDIO_CAP_COUNT ≤ num % 2 ^ 8
      · rw [if_pos hfull, if_pos hfull]
        exact iff_of_true (every_warn _) h
      rw [if_neg hfull, if_neg hfull, every_fetch, every_store_bind,
        and_iff_right (show _ < CapArray.audioInfo.size from not_le.mp hfull)]
      by_cases hfmt : audioFmtValid (frmCodeOf (b (data + 3 * i)))
      · rw [if_pos hfmt, if_pos hfmt, every_setCap, every_fetch, every_bind,
          and_iff_right every_edidAudioRate, every_fetch, every_bind,
          and_iff_right every_edidAudioDepthAndMaxRate]
        have hi : 3 * i + 3 = 3 * (i + 1) := rfl
        rw [← Nat.add_assoc (3 * i) 3, hi, Nat.add_assoc data, hi]
        refine fits_and_iff (by omega) fun _ => fits_and_iff (by omega) fun _ =>
          fits_and_iff (Nat.le_add_right ..) fun h3 => ih ?_ h3
        rw [← hnum]
        exact congrArg Known.audio known_after_audio
      · rw [if_neg hfmt, if_neg hfmt]
        exact and_iff_left (every_warn _)

theorem every_edidAudioDb (hdata : data ≤ HDMI_EDID_BLOCK_SIZE) (hlen : len ≤ 31) :
    Every Access.Inside (edidAudioDb b data len) s ↔
      Fits data len (audioRead b (len / 3) data s.cap.audioInfoNum) := by
  rw [edidAudioDb, if_neg (by omega), every_bind, every_edidAudioLoop rfl (fits_zero hdata),
    Nat.mul_zero, Nat.zero_add, Nat.add_zero]
  exact and_iff_left (every_pure _)

end Audio

section Formats

theorem supportVicNum_setNativeFormat (vic : ℕ) (c : HdmiSinkCapability) :
    (setNativeFormat vic c).supportVicNum = c.supportVicNum := by
  rw [setNativeFormat]
  split <;> rfl

theorem every_edidVideoLoop {n i num native : ℕ} (hnum : s.cap.supportVicNum = num)
    (h : Fits data len i) :
    Every Access.Inside (edidVideoLoop b data len n i native) s ↔
      Fits data len (i + formatsRead (· ≠ 0) b n (data + i) num) := by
  induction n generalizing i num native s with
  | zero => exact iff_of_true (every_pure _) h
  | succ n ih =>
      rw [edidVideoLoop, formatsRead, every_fetch, every_getCap, hnum]
      by_cases hfull : HDMI_EDID_MAX_VIC_COUNT ≤ num
      · rw [if_pos hfull, if_pos hfull, every_warn_bind]
        exact and_iff_left (every_pure _)
      rw [if_neg hfull, if_neg hfull, ← Nat.add_assoc i, Nat.add_assoc data]
      refine fits_and_iff (Nat.le_add_right ..) fun h1 => ?_
      by_cases hzero : b (data + i) = 0
      · rw [if_pos hzero, every_warn_bind, if_neg (not_not.mpr hzero)]
        exact ih hnum h1
      · rw [if_neg hzero, every_when_setCap, every_store_bind,
          and_iff_right (show _ < CapArray.supportFormat.size from not_le.mp hfull), if_pos hzero]
        refine ih ?_ h1
        have hnative (c : Prop) [Decidable c] (vic : ℕ) :
            (if c then s.mapCap (setNativeFormat vic) else s).cap.supportVicNum = num := by
          split
          · exact (supportVicNum_setNativeFormat ..).trans hnum
          · exact hnum
        exact congrArg (· + 1) (hnative ..)

theorem every_edidVideoDb (hdata : data ≤ HDMI_EDID_BLOCK_SIZE) :
    Every Access.Inside (edidVideoDb b data len) s ↔
      Fits data len (formatsRead (· ≠ 0) b len data s.cap.supportVicNum) := by
  rw [edidVideoDb, every_bind, every_edidVideoLoop rfl (fits_zero hdata), Nat.zero_add,
    Nat.add_zero, every_setCap]
  exact and_iff_left (every_pure _)

theorem every_edidVicParse {n i num : ℕ} (hnum : s.cap.supportVicNum = num)
    (h : Fits data len i) :
    Every Access.Inside (edidVicParse b data len n i) s ↔
      Fits data len (i + formatsRead (· < 5) b n (data + i) num) := by
  induction n generalizing i num s with
  | zero => exact iff_of_true (every_pure _) h
  | succ n ih =>
      rw [edidVicParse, formatsRead, every_fetch, every_getCap, hnum]
      by_cases hfull : HDMI_EDID_MAX_VIC_COUNT ≤ num
      · rw [if_neg (not_lt.mpr hfull), if_pos hfull, every_warn_bind]
        exact and_iff_left (every_pure _)
      have hroom : num < HDMI_EDID_MAX_VIC_COUNT := not_le.mp hfull
      rw [if_pos hroom, if_neg hfull, ← Nat.add_assoc i, Nat.add_assoc data, every_when_bind,
        and_iff_right fun _ => every_store.mpr hroom]
      refine fits_and_iff (Nat.le_add_right ..) fun h1 => ih ?_ h1
      split
      · exact congrArg (· + 1) hnum
      · exact hnum

theorem value_edidVicParse {n i num : ℕ} (hnum : s.cap.supportVicNum = num) :
    (edidVicParse b data len n i).value s = i + formatsRead (· < 5) b n (data + i) num := by
  induction n generalizing i num s with
  | zero => rfl
  | succ n ih =>
      rw [edidVicParse, formatsRead, value_fetch, value_getCap, hnum]
      by_cases hfull : HDMI_EDID_MAX_VIC_COUNT ≤ num
      · rw [if_neg (not_lt.mpr hfull), if_pos hfull]
        rfl
      rw [if_pos (not_le.mp hfull), if_neg hfull, ← Nat.add_assoc i, Nat.add_assoc data,
        value_when_bind]
      refine ih ?_
      split
      · exact congrArg (· + 1) hnum
      · exact hnum

theorem every_edidY420VideoLoop {n i num : ℕ} (hnum : s.cap.onlySupportY420VicNum = num)
    (h : Fits data len (1 + i)) :
    Every Access.Inside (edidY420VideoLoop b data len n i) s ↔
      Fits data len (1 + i +
        formatsRead (fun vic => ¬ y420VicInvalid vic) b n (data + (1 + i)) num) := by
  induction n generalizing i num s with
  | zero => exact iff_of_true (every_pure _) h
  | succ n ih =>
      rw [edidY420VideoLoop, formatsRead, every_fetch, every_getCap, hnum]
      by_cases hfull : HDMI_EDID_MAX_VIC_COUNT ≤ num
      · rw [if_pos hfull, if_pos hfull]
        exact and_iff_left (every_warn _)
      rw [if_neg hfull, if_neg hfull, ← Nat.add_assoc (1 + i), Nat.add_assoc data,
        Nat.add_assoc 1 i 1]
      refine fits_and_iff (Nat.le_add_right ..) fun h1 => ?_
      by_cases hbad : y420VicInvalid (b (data + (1 + i)))
      · rw [if_pos hbad, every_warn_bind, if_neg (not_not.mpr hbad)]
        exact ih hnum h1
      · rw [if_neg hbad, every_store_bind, if_pos hbad,
          and_iff_right (show _ < CapArray.onlySupportY420Format.size from not_le.mp hfull)]
        exact ih (congrArg (· + 1) hnum) h1

theorem every_edidY420AllLoop {n i : ℕ} : Every Access.Inside (edidY420AllLoop n i) s := by
  induction n generalizing i s with
  | zero => exact every_pure _
  | succ n ih =>
      rw [edidY420AllLoop, every_getCap, every_when_bind]
      exact ⟨fun hroom => every_store.mpr hroom.2, ih⟩

theorem every_edidY420MapLoop {n i : ℕ} :
    Every Access.Inside (edidY420MapLoop b data len n i) s ↔
      n = 0 ∨ Fits data len (2 + (i + n - 1) / 8) := by
  induction n generalizing i s with
  | zero => exact iff_of_true (every_pure _) (.inl rfl)
  | succ n ih =>
      rw [edidY420MapLoop, every_fetch, every_getCap, every_when_bind,
        and_iff_right fun hroom => every_store.mpr hroom.2, ih]
      have hlast : i + (n + 1) - 1 = i + n := by omega
      have hnext : i + 1 + n - 1 = i + n := by omega
      rw [hlast, hnext]
      constructor
      · rintro ⟨hi, rfl | h⟩
        · exact .inr (hi.mono (by omega))
        · exact .inr h
      · rintro (h | h)
        · cases h
        · exact ⟨h.mono (by omega), .inr h⟩

end Formats

section Vendor

theorem every_edidHfvs21Db :
    Every Access.Inside (edidHfvs21Db b data len) s ↔ Fits data len 13 := by
  rw [edidHfvs21Db]
  iterate 6 rw [every_fetch]
  simp only [inside_setCap, and_true, Fits]
  omega

theorem every_edidHfvsDb (h : Fits data len 3) (hlen : len ≤ 31) :
    Every Access.Inside (edidHfvsDb b data len) s ↔ Fits data len (hfvsRead len) := by
  rw [edidHfvsDb, hfvsRead]
  by_cases hshort : len < 7
  · rw [if_pos (.inl hshort), if_pos hshort]
    exact iff_of_true (every_warn_bind _ _ |>.mpr (every_pure _)) h
  have hwarn (c : Prop) : c → Every Access.Inside (warn .hfvsdbInvalid) s := fun _ => every_warn _
  rw [if_neg (by omega), if_neg hshort, every_fetch, every_when_bind, and_iff_right (hwarn _),
    every_fetch, every_setCap, every_fetch, every_fetch, every_setCap, every_when_bind,
    and_iff_left (every_pure _), every_edidHfvs21Db]
  simp only [Fits]
  split <;> omega

theorem value_edidLatencyParse {offset : ℕ} :
    (edidLatencyParse b data len offset).value s =
      offset + (if s.cap.latencyFieldsPresent then 2 else 0) +
        if s.cap.iLatencyFieldsPresent then 2 else 0 := rfl

theorem every_edidLatencyParse {offset : ℕ} (h : Fits data len offset) :
    Every Access.Inside (edidLatencyParse b data len offset) s ↔
      Fits data len (offset + (if s.cap.latencyFieldsPresent then 2 else 0) +
        if s.cap.iLatencyFieldsPresent then 2 else 0) := by
  rw [edidLatencyParse, every_getCap, every_when_bind, every_when_bind,
    and_iff_left (every_pure _), every_fetch, every_fetch, every_fetch, every_fetch]
  simp only [inside_setCap, and_true]
  cases s.cap.latencyFieldsPresent <;> cases s.cap.iLatencyFieldsPresent <;>
    simp only [Fits, if_true, if_false, Bool.false_eq_true, false_imp_iff, true_imp_iff, true_and,
      and_true, true_iff, Nat.add_zero] at h ⊢ <;> omega

theorem cap_after_edidLatencyParse (b : ℕ → UInt8) (data len offset : ℕ) (s : Sink) :
    ((edidLatencyParse b data len offset).after s).cap.supportVicNum = s.cap.supportVicNum ∧
      ((edidLatencyParse b data len offset).after s).cap.hdmiVideoPresent =
        s.cap.hdmiVideoPresent := by
  rw [edidLatencyParse, after_bind, after_bind, after_bind, after_when, after_when]
  constructor <;> split <;> split <;> rfl

theorem le_vicEnd (b : ℕ → UInt8) (data len num : ℕ) :
    flags3dOffset (b (data + 7)) + 2 ≤ vicEnd b data len num := by
  rw [vicEnd]
  split <;> omega

theorem every_edidVicFields {num offset n : ℕ} (hnum : s.cap.supportVicNum = num)
    (hoff : offset = flags3dOffset (b (data + 7)) + 2)
    (hn : n = hdmiVicLen (b (data + (offset - 1)))) (h : Fits data len offset) :
    Every Access.Inside (edidVicFields b data len n offset) s ↔
      Fits data len (vicEnd b data len num) := by
  subst hoff hn
  rw [vicEnd, edidVicFields]
  split
  · exact every_edidVicParse hnum h
  · exact iff_of_true (every_pure _) h

theorem value_edidVicFields {num offset n : ℕ} (hnum : s.cap.supportVicNum = num)
    (hoff : offset = flags3dOffset (b (data + 7)) + 2)
    (hn : n = hdmiVicLen (b (data + (offset - 1)))) :
    (edidVicFields b data len n offset).value s = vicEnd b data len num := by
  subst hoff hn
  rw [vicEnd, edidVicFields]
  split
  · exact value_edidVicParse hnum
  · rfl

theorem every_edid3dParse {offset : ℕ} :
    Every Access.Inside (edid3dParse b data len offset) s ↔ Fits data len (offset + 2) := by
  rw [edid3dParse, every_fetch, every_bind, and_iff_right (every_putFlags (by decide)), every_fetch,
    and_iff_left (every_putFlags (by decide))]
  exact and_iff_right_of_imp fun h => h.mono (by omega)

/-- The formats and the 3D structure after them. -/
theorem every_vicFields_bind_3dParse {num offset n : ℕ} {present : Bool} {flags lens : UInt8}
    (hnum : s.cap.supportVicNum = num) (hoff : offset = flags3dOffset (b (data + 7)) + 2)
    (hn : n = hdmiVicLen (b (data + (offset - 1)))) (h : Fits data len offset) :
    Every Access.Inside (edidVicFields b data len n offset >>= fun offset' =>
        Logged.when (reads3d present flags lens len offset') (edid3dParse b data len offset')) s ↔
      Fits data len (if reads3d present flags lens len (vicEnd b data len num) then
        vicEnd b data len num + 2 else vicEnd b data len num) := by
  rw [every_bind, every_edidVicFields hnum hoff hn h, value_edidVicFields hnum hoff hn, every_when,
    every_edid3dParse]
  split
  · next hreads =>
    rw [forall_prop_of_true hreads]
    exact and_iff_right_of_imp fun h2 => h2.mono (Nat.le_add_right ..)
  · next hreads => exact and_iff_left fun hr => absurd hr hreads

/-- The fields after byte 7, of which that byte tells which are present. -/
theorem every_edidVsdbPraseStep9 {num : ℕ} (h : Fits data len 8) (h9 : 9 ≤ len)
    (hlat : s.cap.latencyFieldsPresent = edidFlagsMaskCheck (b (data + 7)) 0x80)
    (hilat : s.cap.iLatencyFieldsPresent = edidFlagsMaskCheck (b (data + 7)) 0x40)
    (hpresent : s.cap.hdmiVideoPresent = edidFlagsMaskCheck (b (data + 7)) 0x20)
    (hnum : s.cap.supportVicNum = num) :
    Every Access.Inside (edidVsdbPraseStep9 b data len) s ↔
      Fits data len (vsdbRead b data len num) := by
  obtain ⟨hnum', hpresent'⟩ := cap_after_edidLatencyParse b data len 8 s
  rw [hnum] at hnum'
  rw [hpresent] at hpresent'
  rw [edidVsdbPraseStep9, every_bind, every_edidLatencyParse h, value_edidLatencyParse, hlat, hilat,
    ← flags3dOffset, every_fetch, every_getCap, hpresent', every_when_setCap, every_when, vsdbRead,
    if_neg (show ¬ len < 5 by omega), if_neg (show ¬ len < 9 by omega)]
  by_cases h10 : len < 10
  · rw [if_pos h10]
    refine fits_and_iff (by omega) fun _ => and_iff_left fun hge => ?_
    omega
  have hvic := le_vicEnd b data len num
  rw [if_neg h10, forall_prop_of_true (by omega), every_fetch]
  refine fits_and_iff (by split <;> omega) fun _ => fits_and_iff (by split <;> omega) fun _ =>
    fits_and_iff (by split <;> omega) fun h2 => every_vicFields_bind_3dParse ?_ rfl rfl h2
  have hset (t : Sink) (ht : t.cap.supportVicNum = num) (p : Prop) [Decidable p]
      (byte : UInt8) : (if p then t.mapCap (setSupport3d byte) else t).cap.supportVicNum = num := by
    split <;> exact ht
  exact hset _ hnum' _ _

theorem le_vsdbRead (b : ℕ → UInt8) (data num : ℕ) (h9 : 9 ≤ len) :
    9 ≤ vsdbRead b data len num := by
  have hvic := le_vicEnd b data len num
  have hoff : 8 ≤ flags3dOffset (b (data + 7)) := by
    rw [flags3dOffset]
    omega
  rw [vsdbRead, if_neg (show ¬ len < 5 by omega), if_neg (show ¬ len < 9 by omega)]
  split_ifs <;> omega

theorem every_edidCecPhyAddrPrase_bind (k : Unit → EdidParser Ret) :
    Every Access.Inside (edidCecPhyAddrPrase b data len >>= k) s ↔
      Fits data len 5 ∧ Every Access.Inside (k ())
        (s.mapCap (setCecAddr (b (data + 3)) (b (data + 4)))) := by
  rw [every_bind, edidCecPhyAddrPrase, every_fetch, every_fetch, and_iff_left inside_setCap,
    and_iff_right_of_imp fun h : Fits data len (4 + 1) => h.mono (Nat.le_succ _)]
  rfl

/-- A field of one byte, which is read when the block is long enough. -/
theorem every_when_field {c : Prop} [Decidable c] {i : ℕ}
    {f : UInt8 → HdmiSinkCapability → HdmiSinkCapability} (k : Unit → EdidParser Ret) :
    Every Access.Inside
        (Logged.when c (fetch b data len i >>= fun byte => setCap (f byte)) >>= k) s ↔
      (c → Fits data len (i + 1)) ∧
        Every Access.Inside (k ()) (if c then s.mapCap (f (b (data + i))) else s) := by
  rw [every_when_bind, every_fetch, and_iff_left inside_setCap]
  rfl

theorem every_edidVsdb {num : ℕ} (h : Fits data len 3) (hnum : s.cap.supportVicNum = num) :
    Every Access.Inside (edidVsdb b data len) s ↔ Fits data len (vsdbRead b data len num) := by
  rw [edidVsdb]
  by_cases h5 : len < 5
  · rw [if_pos h5, every_warn_bind, vsdbRead, if_pos h5]
    exact iff_of_true (every_pure _) h
  rw [if_neg h5, every_edidCecPhyAddrPrase_bind, every_when_field, every_when_field,
    every_when_field, every_when_bind, and_iff_left (every_pure _)]
  by_cases h9 : 9 ≤ len
  · rw [if_pos (show 6 ≤ len by omega), if_pos (show 7 ≤ len by omega),
      if_pos (show 8 ≤ len by omega)]
    have hstep (t : Sink) (h8 : Fits data len 8) (ht : t.cap.supportVicNum = num) :
        Every Access.Inside (edidVsdbPraseStep9 b data len) (t.mapCap (setPresent (b (data + 7)))) ↔
          Fits data len (vsdbRead b data len num) :=
      every_edidVsdbPraseStep9 h8 h9 rfl rfl rfl ht
    have hle := le_vsdbRead b data num h9
    constructor
    · rintro ⟨-, -, -, h8, hrest⟩
      apply (hstep _ (h8 (by omega)) ?_).mp (hrest h9)
      exact hnum
    · intro hall
      have h8 : Fits data len 8 := hall.mono (by omega)
      refine ⟨h8.mono (by omega), fun _ => h8.mono (by omega), fun _ => h8.mono (by omega),
        fun _ => h8, fun _ => ?_⟩
      apply (hstep _ h8 ?_).mpr hall
      exact hnum
  · rw [forall_prop_of_false h9, and_true, vsdbRead, if_neg h5, if_pos (not_le.mp h9)]
    simp only [Fits]
    omega

/-- The comparison reads one byte more than are equal. -/
theorem every_ieeeIs {c0 c1 c2 : UInt8} :
    Every Access.Inside (ieeeIs b data len c0 c1 c2) s ↔
      Fits data len 1 ∧ (b data = c0 → Fits data len 2 ∧
        (b (data + 1) = c1 → Fits data len 3)) := by
  rw [ieeeIs, every_fetch, Nat.add_zero data]
  by_cases h0 : b data = c0
  · rw [if_pos h0, forall_prop_of_true h0, every_fetch]
    by_cases h1 : b (data + 1) = c1
    · rw [if_pos h1, forall_prop_of_true h1, every_fetch]
      exact and_congr_right fun _ => and_congr_right fun _ => and_iff_left (every_pure _)
    · rw [if_neg h1, forall_prop_of_false h1]
      exact and_congr_right fun _ => and_congr_right fun _ => iff_of_true (every_pure _) trivial
  · rw [if_neg h0, forall_prop_of_false h0]
    exact and_congr_right fun _ => iff_of_true (every_pure _) trivial

theorem value_ieeeIs {c0 c1 c2 : UInt8} :
    (ieeeIs b data len c0 c1 c2).value s = decide (IsIeee b data c0 c1 c2) := by
  rw [ieeeIs, value_fetch, Nat.add_zero data]
  by_cases h0 : b data = c0
  · rw [if_pos h0, value_fetch]
    by_cases h1 : b (data + 1) = c1
    · rw [if_pos h1, value_fetch, value_pure, decide_eq_decide]
      exact ⟨fun h2 => ⟨h0, h1, h2⟩, fun h => h.2.2⟩
    · rw [if_neg h1, value_pure, eq_comm, decide_eq_false_iff_not]
      exact fun h => h1 h.2.1
  · rw [if_neg h0, value_pure, eq_comm, decide_eq_false_iff_not]
    exact fun h => h0 h.1

theorem after_ieeeIs {c0 c1 c2 : UInt8} : (ieeeIs b data len c0 c1 c2).after s = s := by
  rw [ieeeIs, after_bind]
  split
  · rw [after_bind]
    split <;> rfl
  · rfl

theorem le_hfvsRead : 3 ≤ hfvsRead len := by
  rw [hfvsRead]
  split_ifs <;> omega

theorem le_vsdbRead_three (num : ℕ) : 3 ≤ vsdbRead b data len num := by
  rcases lt_or_ge len 9 with h9 | h9
  · rw [vsdbRead, if_pos h9]
    split <;> omega
  · exact (le_vsdbRead b data num h9).trans' (by decide)

theorem every_edidVendorDataBlockParse {num : ℕ} (hdata : data ≤ HDMI_EDID_BLOCK_SIZE)
    (hlen : len ≤ 31) (hnum : s.cap.supportVicNum = num) :
    Every Access.Inside (edidVendorDataBlockParse b data len) s ↔
      Fits data len (vendorRead b data len num) := by
  rw [edidVendorDataBlockParse, vendorRead]
  by_cases h3 : len < 3
  · rw [if_neg (not_le.mpr h3), if_pos h3, every_warn_bind]
    exact iff_of_true (every_pure _) (fits_zero hdata)
  -- The comparisons read no more than the first three bytes.
  have hsome (c0 c1 c2 : UInt8) (h : Fits data len 3) :
      Every Access.Inside (ieeeIs b data len c0 c1 c2) s :=
    every_ieeeIs.mpr ⟨h.mono (by decide), fun _ => ⟨h.mono (by decide), fun _ => h⟩⟩
  -- They read all three when these are the given ones.
  have hall {c0 c1 c2 : UInt8} (hI : IsIeee b data c0 c1 c2)
      (h : Every Access.Inside (ieeeIs b data len c0 c1 c2) s) : Fits data len 3 :=
    ((every_ieeeIs.mp h).2 hI.1).2 hI.2.1
  rw [if_pos (not_lt.mp h3), if_neg h3, every_bind, value_ieeeIs, after_ieeeIs, every_bind,
    value_ieeeIs, after_ieeeIs]
  simp only [decide_eq_true_eq]
  by_cases hV : IsIeee b data 0x03 0x0c 0x00
  · rw [if_pos hV, if_pos hV, every_setCap]
    constructor
    · rintro ⟨h1, -, h⟩
      apply (every_edidVsdb (hall hV h1) ?_).mp h
      exact hnum
    · intro h
      have hfits := h.mono (le_vsdbRead_three num)
      refine ⟨hsome _ _ _ hfits, hsome _ _ _ hfits, ?_⟩
      apply (every_edidVsdb hfits ?_).mpr h
      exact hnum
  rw [if_neg hV, if_neg hV]
  by_cases hH : IsIeee b data 0xd8 0x5d 0xc4
  · rw [if_pos hH, if_pos hH]
    constructor
    · rintro ⟨-, h2, h⟩
      exact (every_edidHfvsDb (hall hH h2) hlen).mp h
    · intro h
      have hfits := h.mono le_hfvsRead
      exact ⟨hsome _ _ _ hfits, hsome _ _ _ hfits, (every_edidHfvsDb hfits hlen).mpr h⟩
  · rw [if_neg hH, if_neg hH, every_warn_bind, every_fetch, every_fetch, every_fetch]
    constructor
    · rintro ⟨-, -, -, -, h, -⟩
      exact h
    · intro h
      exact ⟨hsome _ _ _ h, hsome _ _ _ h, h.mono (by decide), h.mono (by decide), h, every_pure _⟩

end Vendor

section Extended

theorem every_edidSpeakerDb (hdata : data ≤ HDMI_EDID_BLOCK_SIZE) :
    Every Access.Inside (edidSpeakerDb b data len) s ↔
      Fits data len (speakerRead len) := by
  rw [edidSpeakerDb, speakerRead]
  split
  · rw [every_warn_bind, every_warn_bind]
    exact iff_of_true (every_pure _) (fits_zero hdata)
  · rw [every_fetch, every_bind, and_iff_right (every_putFlags (by decide)), every_fetch,
      every_bind, and_iff_right (every_putFlags (by decide)), and_iff_left (every_pure _)]
    exact and_iff_right_of_imp fun h => h.mono (by decide)

theorem every_edidColorimetryDb (h : Fits data len 1) :
    Every Access.Inside (edidColorimetryDb b data len) s ↔
      Fits data len (if len < 3 then 1 else 3) := by
  rw [edidColorimetryDb]
  split
  · rw [every_warn_bind]
    exact iff_of_true (every_pure _) h
  · rw [every_fetch, every_fetch, every_setCap, and_iff_left (every_pure _)]
    exact and_iff_right_of_imp fun h3 => h3.mono (by decide)

theorem every_edidY420CapMapDb (h : Fits data len 1) :
    Every Access.Inside (edidY420CapMapDb b data len) s ↔
      Fits data len (capMapRead len s.cap.supportVicNum) := by
  rw [edidY420CapMapDb, every_getCap, capMapRead]
  by_cases h1 : len = 1
  · rw [if_pos h1, if_pos (.inl h1)]
    exact iff_of_true every_edidY420AllLoop h
  rw [if_neg h1, every_edidY420MapLoop, Nat.zero_add]
  split
  · next hor => exact iff_of_true (.inl (hor.resolve_left h1)) h
  · next hor => exact or_iff_right fun hn => hor (.inr hn)

theorem every_edidVideoCapDb (h : Fits data len 1) :
    Every Access.Inside (edidVideoCapDb b data len) s ↔
      Fits data len (if len = 0 then 1 else 2) := by
  rw [edidVideoCapDb, every_when, every_fetch, and_iff_left inside_setCap]
  split
  · next h0 => exact iff_of_true (fun hne => absurd h0 hne) h
  · next h0 => exact forall_prop_of_true h0

theorem every_edidExtDataBlockParse :
    Every Access.Inside (edidExtDataBlockParse b data len) s ↔
      Fits data len (extRead b s.cap.known data len) := by
  rw [edidExtDataBlockParse, every_fetch, Nat.add_zero data, extRead]
  by_cases h5 : b data = 0x05
  · rw [if_pos h5, if_pos h5]
    exact fits_and_iff (by split <;> decide) every_edidColorimetryDb
  rw [if_neg h5, if_neg h5]
  by_cases he : b data = 0x0e
  · rw [if_pos he, if_pos he, every_when_bind, and_iff_left (every_pure _), edidY420VideoDb]
    refine fits_and_iff (Nat.le_add_right ..) fun h1 => ?_
    have hne : len ≠ 0 := Nat.ne_of_gt h1.1
    rw [forall_prop_of_true hne]
    exact every_edidY420VideoLoop rfl h1
  rw [if_neg he, if_neg he]
  by_cases hf : b data = 0x0f
  · rw [if_pos hf, if_pos hf, every_bind, and_iff_left (every_pure _)]
    refine fits_and_iff ?_ every_edidY420CapMapDb
    rw [capMapRead]
    split <;> omega
  rw [if_neg hf, if_neg hf]
  by_cases h0 : b data = 0x00
  · rw [if_pos h0, if_pos h0, every_bind, and_iff_left (every_pure _)]
    exact fits_and_iff (by split <;> decide) every_edidVideoCapDb
  · rw [if_neg h0, if_neg h0]
    exact and_iff_left (every_pure _)

end Extended

/-- A data block is read inside the block and inside its own bytes if and only if the
bytes that it tells to read are there. -/
theorem every_edidDbParse (dbTag : ℕ) (hdata : data ≤ HDMI_EDID_BLOCK_SIZE) (hlen : len ≤ 31) :
    Every Access.Inside (edidDbParse b dbTag data len) s ↔
      Fits data len (bytesRead b s.cap.known dbTag data len) := by
  rw [edidDbParse, bytesRead]
  split_ifs
  · exact every_edidAudioDb hdata hlen
  · exact every_edidVideoDb hdata
  · exact every_edidVendorDataBlockParse hdata hlen rfl
  · exact every_edidSpeakerDb hdata
  · exact every_edidExtDataBlockParse
  · exact iff_of_true (every_pure _) (fits_zero hdata)

end OpiaiKernel.Hdmi
