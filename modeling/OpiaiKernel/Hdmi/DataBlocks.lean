import OpiaiKernel.Hdmi.SinkCapability

/-!
# The data blocks of an EDID extension block

The parser of each kind of data block.  All are given the `len` bytes of payload
at `data`; that of an extended data block passes the same length on for the bytes
after its tag code.
-/

namespace OpiaiKernel.Hdmi

open EdidParser

def setAudio (cur : ℕ) (f : HdmiEdidAudioInfo → HdmiEdidAudioInfo) (c : HdmiSinkCapability) :
    HdmiSinkCapability :=
  { c with audioInfo := Function.update c.audioInfo cur (f (c.audioInfo cur)) }

/-- The values whose flags are set are entered one after another. -/
def fillFlags (array : CapArray) (put : ℕ → ℕ → HdmiSinkCapability → HdmiSinkCapability)
    (byte : UInt8) : List (UInt8 × ℕ) → ℕ → EdidParser ℕ
  | [], count => pure count
  | (mask, v) :: rest, count =>
    if edidFlagsMaskCheck byte mask then do
      store array count (put count v)
      fillFlags array put byte rest (count + 1)
    else fillFlags array put byte rest count

/-- One element for each flag. -/
def putFlags (array : CapArray) (put : ℕ → Bool → HdmiSinkCapability → HdmiSinkCapability)
    (byte : UInt8) : List (ℕ × UInt8) → EdidParser Unit
  | [] => pure ()
  | (i, mask) :: rest => do
    store array i (put i (edidFlagsMaskCheck byte mask))
    putFlags array put byte rest

section Audio

def sampleRates (frmCode : ℕ) : List (UInt8 × ℕ) :=
  [(0x01, 32000), (0x02, 44100), (0x04, 48000), (0x08, 88200), (0x10, 96000)] ++
    if 1 ≤ frmCode ∧ frmCode ≤ 14 then [(0x20, 176400), (0x40, 192000)] else []

def edidAudioRate (byte : UInt8) (frmCode cur : ℕ) : EdidParser Unit := do
  let count ← fillFlags .supportSampleRate
    (fun i v => setAudio cur fun a =>
      { a with supportSampleRate := Function.update a.supportSampleRate i v })
    byte (sampleRates frmCode) 0
  setCap (setAudio cur fun a => { a with supportSampleRateNum := count })

def edidAudioDepthAndMaxRate (byte : UInt8) (frmCode cur : ℕ) : EdidParser Unit :=
  if frmCode = 1 then do
    let count ← fillFlags .supportBitDepth
      (fun i v => setAudio cur fun a =>
        { a with supportBitDepth := Function.update a.supportBitDepth i v })
      byte [(0x01, 16), (0x02, 20), (0x04, 24)] 0
    setCap (setAudio cur fun a => { a with supportBitDepthNum := count })
  else if 1 < frmCode ∧ frmCode < 9 then
    setCap (setAudio cur fun a => { a with maxBitRate := byte.toNat * 8 })
  else pure ()

/-- The bits of a short audio descriptor's first byte that give the format. -/
def frmCodeOf (byte : UInt8) : ℕ := ((byte &&& 0x78) >>> 3).toNat

def setAudioFmt (cur : ℕ) (byte : UInt8) : HdmiSinkCapability → HdmiSinkCapability :=
  setAudio cur fun a =>
    { a with audChannel := (byte &&& 0x07).toNat + 1, audFmtCode := frmCodeOf byte }

def addAudio (c : HdmiSinkCapability) : HdmiSinkCapability :=
  { c with audioInfoNum := (c.audioInfoNum + 1) % 2 ^ 32 }

def audioFmtValid (frmCode : ℕ) : Prop := 0 < frmCode ∧ frmCode < 16

instance (frmCode : ℕ) : Decidable (audioFmtValid frmCode) := inferInstanceAs (Decidable (_ ∧ _))

/-- `n` more short audio descriptors, from the `i`th on. -/
def edidAudioLoop (b : ℕ → UInt8) (data len : ℕ) : ℕ → ℕ → EdidParser Unit
  | 0, _ => pure ()
  | n + 1, i => do
    let cap ← getCap
    let cur := cap.audioInfoNum % 2 ^ 8
    if HDMI_EDID_MAX_AUDIO_CAP_COUNT ≤ cur then warn .audioCntOver
    else do
      let byte ← fetch b data len (3 * i)
      store .audioInfo cur (setAudioFmt cur byte)
      if audioFmtValid (frmCodeOf byte) then do
        setCap addAudio
        let byte1 ← fetch b data len (3 * i + 1)
        edidAudioRate byte1 (frmCodeOf byte) cur
        let byte2 ← fetch b data len (3 * i + 2)
        edidAudioDepthAndMaxRate byte2 (frmCodeOf byte) cur
        edidAudioLoop b data len n (i + 1)
      else warn .audioFmtInvalid

def edidAudioDb (b : ℕ → UInt8) (data len : ℕ) : EdidParser Ret :=
  if 10 < len / 3 then do
    warn .audioCntOver
    pure .failure
  else do
    edidAudioLoop b data len (len / 3) 0
    pure .success

end Audio

section Video

def addFormat (vic : ℕ) (c : HdmiSinkCapability) : HdmiSinkCapability :=
  { c with
    supportFormat := Function.update c.supportFormat c.supportVicNum vic
    supportVicNum := c.supportVicNum + 1 }

/-- The native format is the first one that is found. -/
def setNativeFormat (vic : ℕ) (c : HdmiSinkCapability) : HdmiSinkCapability :=
  if c.nativeFormat = 0 then { c with nativeFormat := vic } else c

/-- `n` more bytes, from the `i`th on; the result is the implicit native format. -/
def edidVideoLoop (b : ℕ → UInt8) (data len : ℕ) : ℕ → ℕ → ℕ → EdidParser ℕ
  | 0, _, inplicitNative => pure inplicitNative
  | n + 1, i, inplicitNative => do
    let vicAll ← fetch b data len i
    let cap ← getCap
    if HDMI_EDID_MAX_VIC_COUNT ≤ cap.supportVicNum then do
      warn .vicCntOver
      pure inplicitNative
    else if vicAll = 0 then do
      warn .vicInvalid
      edidVideoLoop b data len n (i + 1) inplicitNative
    else do
      let vicLower := (vicAll &&& 0x7f).toNat
      let native := edidFlagsMaskCheck vicAll 0x80 && vicLower ≤ 64
      Logged.when native (setCap (setNativeFormat vicLower))
      store .supportFormat cap.supportVicNum
        (addFormat (if native then vicLower else vicAll.toNat))
      edidVideoLoop b data len n (i + 1)
        (if inplicitNative = 0 then vicAll.toNat else inplicitNative)

def edidVideoDb (b : ℕ → UInt8) (data len : ℕ) : EdidParser Ret := do
  let inplicitNative ← edidVideoLoop b data len len 0 0
  setCap (setNativeFormat inplicitNative)
  pure .success

end Video

section Vendor

def edidHfvs21Db (b : ℕ → UInt8) (data len : ℕ) : EdidParser Unit := do
  let byte0 ← fetch b data len 7
  let byte1 ← fetch b data len 8
  let byte2 ← fetch b data len 9
  let byte3 ← fetch b data len 10
  let byte4 ← fetch b data len 11
  let byte5 ← fetch b data len 12
  setCap fun c => { c with
    fapaStartLocation := edidFlagsMaskCheck byte0 0x01
    allm := edidFlagsMaskCheck byte0 0x02
    fva := edidFlagsMaskCheck byte0 0x04
    cnmVrr := edidFlagsMaskCheck byte0 0x08
    cinemaVrr := edidFlagsMaskCheck byte0 0x10
    mDelta := edidFlagsMaskCheck byte0 0x20
    vrrMin := byte1 &&& 0x3f
    vrrMax := ((byte1 &&& 0xc0).toNat <<< 2) ||| byte2.toNat
    dscInfo := {
      dsc1p2 := edidFlagsMaskCheck byte3 0x80
      dscNative420 := edidFlagsMaskCheck byte3 0x40
      dscAllBpp := edidFlagsMaskCheck byte3 0x08
      dsc16bpc := edidFlagsMaskCheck byte3 0x04
      dsc12bpc := edidFlagsMaskCheck byte3 0x02
      dsc10bpc := edidFlagsMaskCheck byte3 0x01
      dscMaxSlices := byte4 &&& 0x0f
      dscMaxFrlRate := byte4 &&& 0xf0
      dscTotalChunkKBytes := byte5 &&& 0x3f } }

def setMaxTmdsClock (byte : UInt8) (c : HdmiSinkCapability) : HdmiSinkCapability :=
  { c with
    maxTmdsClock := byte.toNat * 5
    supportHdmi20 := 340 ≤ byte.toNat * 5 }

def edidHfvsDb (b : ℕ → UInt8) (data len : ℕ) : EdidParser Ret :=
  if len < 7 ∨ 31 < len then do
    warn .blocklenInvalid
    pure .success
  else do
    let version ← fetch b data len 3
    Logged.when (version ≠ 1) (warn .hfvsdbInvalid)
    let byte4 ← fetch b data len 4
    setCap (setMaxTmdsClock byte4)
    let byte5 ← fetch b data len 5
    let byte6 ← fetch b data len 6
    setCap fun c => { c with
      support3dOsdDisparity := edidFlagsMaskCheck byte5 0x01
      support3dDualView := edidFlagsMaskCheck byte5 0x02
      support3dIndependentView := edidFlagsMaskCheck byte5 0x04
      supportLte340McscScrameble := edidFlagsMaskCheck byte5 0x08
      ccbpci := edidFlagsMaskCheck byte5 0x10
      supportRrCapable := edidFlagsMaskCheck byte5 0x40
      supportScdc := edidFlagsMaskCheck byte5 0x80
      deepColorY420 := {
        deepColor30Bit := edidFlagsMaskCheck byte6 0x01
        deepColor36Bit := edidFlagsMaskCheck byte6 0x02
        deepColor48Bit := edidFlagsMaskCheck byte6 0x04 }
      maxFrlRate := (byte6 &&& 0xf0) >>> 4 }
    Logged.when (7 < len) (edidHfvs21Db b data len)
    pure .success

def gCommon4kVic : List ℕ := [0, 95, 94, 93, 98]

def setLatency (video audio : UInt8) (c : HdmiSinkCapability) : HdmiSinkCapability :=
  { c with videoLatency := video, audioLatency := audio }

def setInterlacedLatency (video audio : UInt8) (c : HdmiSinkCapability) : HdmiSinkCapability :=
  { c with interlacedVideoLatency := video, interlacedAudioLatency := audio }

/-- The fields that are present are read from `offset` on; the result is the offset
after them. -/
def edidLatencyParse (b : ℕ → UInt8) (data len offset : ℕ) : EdidParser ℕ := do
  let cap ← getCap
  let offset' := offset + if cap.latencyFieldsPresent then 2 else 0
  Logged.when cap.latencyFieldsPresent do
    let video ← fetch b data len offset
    let audio ← fetch b data len (offset + 1)
    setCap (setLatency video audio)
  Logged.when cap.iLatencyFieldsPresent do
    let video ← fetch b data len offset'
    let audio ← fetch b data len (offset' + 1)
    setCap (setInterlacedLatency video audio)
  pure (offset' + if cap.iLatencyFieldsPresent then 2 else 0)

/-- `n` more formats from `offset` on; the result is the offset after them. -/
def edidVicParse (b : ℕ → UInt8) (data len : ℕ) : ℕ → ℕ → EdidParser ℕ
  | 0, offset => pure offset
  | n + 1, offset => do
    let byte ← fetch b data len offset
    let cap ← getCap
    if cap.supportVicNum < HDMI_EDID_MAX_VIC_COUNT then do
      Logged.when (byte < 5)
        (store .supportFormat cap.supportVicNum (addFormat (gCommon4kVic.getD byte.toNat 0)))
      edidVicParse b data len n (offset + 1)
    else do
      warn .vicCntOver
      pure (offset + 1)

/-- The formats, if their number fits. -/
def edidVicFields (b : ℕ → UInt8) (data len n offset : ℕ) : EdidParser ℕ :=
  if n + offset ≤ len then edidVicParse b data len n offset else pure offset

def put3dType (i : ℕ) (v : Bool) (c : HdmiSinkCapability) : HdmiSinkCapability :=
  { c with support3dType := Function.update c.support3dType i v }

def edid3dParse (b : ℕ → UInt8) (data len offset : ℕ) : EdidParser Unit := do
  let byte0 ← fetch b data len offset
  putFlags .support3dType put3dType byte0 [(8, 0x01)]
  let byte1 ← fetch b data len (offset + 1)
  putFlags .support3dType put3dType byte1
    [(0, 0x01), (1, 0x02), (2, 0x04), (3, 0x08), (4, 0x10), (5, 0x20), (6, 0x40)]

def setCecAddr (byte0 byte1 : UInt8) (c : HdmiSinkCapability) : HdmiSinkCapability :=
  { c with cecAddr := {
    phyAddrA := (byte0 &&& 0xf0) >>> 4
    phyAddrB := byte0 &&& 0x0f
    phyAddrC := (byte1 &&& 0xf0) >>> 4
    phyAddrD := byte1 &&& 0x0f
    phyAddrValid := (byte0 &&& 0xf0) >>> 4 ≠ 0xf && byte0 &&& 0x0f ≠ 0xf &&
      (byte1 &&& 0xf0) >>> 4 ≠ 0xf && byte1 &&& 0x0f ≠ 0xf } }

def edidCecPhyAddrPrase (b : ℕ → UInt8) (data len : ℕ) : EdidParser Unit := do
  let byte0 ← fetch b data len 3
  let byte1 ← fetch b data len 4
  setCap (setCecAddr byte0 byte1)

def edidDeepColorPrase (byte : UInt8) (c : HdmiSinkCapability) : HdmiSinkCapability :=
  { c with
    supportDviDual := edidFlagsMaskCheck byte 0x01
    deepColor := {
      deepColorY444 := edidFlagsMaskCheck byte 0x08
      deepColor30Bit := edidFlagsMaskCheck byte 0x10
      deepColor36Bit := edidFlagsMaskCheck byte 0x20
      deepColor48Bit := edidFlagsMaskCheck byte 0x40 }
    supportsAi := edidFlagsMaskCheck byte 0x80 }

/-- The lengths in the byte after the 3D flags. -/
def hdmi3dLen (byte : UInt8) : ℕ := (byte &&& 0x1f).toNat
def hdmiVicLen (byte : UInt8) : ℕ := ((byte &&& 0xe0) >>> 5).toNat

/-- Whether the 3D structure is read, after the formats. -/
def reads3d (present : Bool) (flags lens : UInt8) (len offset : ℕ) : Bool :=
  present && edidFlagsMaskCheck flags 0x80 && 0 < hdmi3dLen lens &&
    hdmi3dLen lens + offset ≤ len &&
    ((flags &&& 0x60) >>> 5 = 1 || (flags &&& 0x60) >>> 5 = 2)

def setSupport3d (flags : UInt8) (c : HdmiSinkCapability) : HdmiSinkCapability :=
  { c with support3d := edidFlagsMaskCheck flags 0x80 }

def edidVsdbPraseStep9 (b : ℕ → UInt8) (data len : ℕ) : EdidParser Unit := do
  let offset ← edidLatencyParse b data len 8
  let flags ← fetch b data len offset
  let cap ← getCap
  Logged.when cap.hdmiVideoPresent (setCap (setSupport3d flags))
  Logged.when (10 ≤ len) do
    let lens ← fetch b data len (offset + 1)
    let offset' ← edidVicFields b data len (hdmiVicLen lens) (offset + 2)
    Logged.when (reads3d cap.hdmiVideoPresent flags lens len offset')
      (edid3dParse b data len offset')

def setPresent (byte : UInt8) (c : HdmiSinkCapability) : HdmiSinkCapability :=
  { c with
    hdmiVideoPresent := edidFlagsMaskCheck byte 0x20
    iLatencyFieldsPresent := edidFlagsMaskCheck byte 0x40
    latencyFieldsPresent := edidFlagsMaskCheck byte 0x80 }

def edidVsdb (b : ℕ → UInt8) (data len : ℕ) : EdidParser Ret :=
  if len < 5 then do
    warn .blocklenInvalid
    pure .success
  else do
    edidCecPhyAddrPrase b data len
    Logged.when (6 ≤ len) do
      let byte ← fetch b data len 5
      setCap (edidDeepColorPrase byte)
    Logged.when (7 ≤ len) do
      let byte ← fetch b data len 6
      setCap (setMaxTmdsClock byte)
    Logged.when (8 ≤ len) do
      let byte ← fetch b data len 7
      setCap (setPresent byte)
    Logged.when (9 ≤ len) (edidVsdbPraseStep9 b data len)
    pure .success

/-- The first three bytes are compared until one differs. -/
def ieeeIs (b : ℕ → UInt8) (data len : ℕ) (c0 c1 c2 : UInt8) : EdidParser Bool := do
  let byte0 ← fetch b data len 0
  if byte0 = c0 then do
    let byte1 ← fetch b data len 1
    if byte1 = c1 then do
      let byte2 ← fetch b data len 2
      pure (byte2 = c2)
    else pure false
  else pure false

/-- A block of an unknown vendor is reported with its first three bytes. -/
def edidVendorDataBlockParse (b : ℕ → UInt8) (data len : ℕ) : EdidParser Ret :=
  if 3 ≤ len then do
    let isVsdb ← ieeeIs b data len 0x03 0x0c 0x00
    let isHfvsdb ← ieeeIs b data len 0xd8 0x5d 0xc4
    if isVsdb then do
      setCap fun c => { c with supportHdmi := true }
      edidVsdb b data len
    else if isHfvsdb then edidHfvsDb b data len
    else do
      warn .vsdbInvalid
      let _ ← fetch b data len 0
      let _ ← fetch b data len 1
      let _ ← fetch b data len 2
      pure .success
  else do
    warn .blocklenInvalid
    pure .success

end Vendor

section Extended

def putSpeaker (i : ℕ) (v : Bool) (c : HdmiSinkCapability) : HdmiSinkCapability :=
  { c with supportAudioSpeaker := Function.update c.supportAudioSpeaker i v }

def edidSpeakerDb (b : ℕ → UInt8) (data len : ℕ) : EdidParser Ret :=
  if len < 2 then do
    warn .blocklenInvalid
    warn .spkdbInvalid
    pure .success
  else do
    let byte0 ← fetch b data len 0
    putFlags .supportAudioSpeaker putSpeaker byte0
      [(0, 0x01), (1, 0x02), (2, 0x04), (3, 0x08), (4, 0x10), (5, 0x20), (6, 0x40), (7, 0x80)]
    let byte1 ← fetch b data len 1
    putFlags .supportAudioSpeaker putSpeaker byte1 [(8, 0x01), (9, 0x02), (10, 0x04)]
    pure .success

def edidColorimetryDb (b : ℕ → UInt8) (data len : ℕ) : EdidParser Ret :=
  if len < 3 then do
    warn .blocklenInvalid
    pure .success
  else do
    let byte0 ← fetch b data len 1
    let byte1 ← fetch b data len 2
    setCap fun c => { c with
      colorMetry := {
        xvycc601 := edidFlagsMaskCheck byte0 0x01
        xvycc709 := edidFlagsMaskCheck byte0 0x02
        sycc601 := edidFlagsMaskCheck byte0 0x04
        adobleYcc601 := edidFlagsMaskCheck byte0 0x08
        adobleRgb := edidFlagsMaskCheck byte0 0x10
        bt2020cYcc := edidFlagsMaskCheck byte0 0x20
        bt2020Ycc := edidFlagsMaskCheck byte0 0x40
        bt2020Rgb := edidFlagsMaskCheck byte0 0x80 }
      mdBit := byte1 }
    pure .success

/-- A byte that is no format of a YCbCr 4:2:0 video data block. -/
def y420VicInvalid (vic : UInt8) : Prop := vic = 0 ∨ 128 ≤ vic ∧ vic ≤ 192

instance (vic : UInt8) : Decidable (y420VicInvalid vic) := inferInstanceAs (Decidable (_ ∨ _))

def addOnlyY420Format (vic : ℕ) (c : HdmiSinkCapability) : HdmiSinkCapability :=
  { c with
    onlySupportY420Format := Function.update c.onlySupportY420Format c.onlySupportY420VicNum vic
    onlySupportY420VicNum := c.onlySupportY420VicNum + 1
    ycbcr420 := true }

/-- `n` more bytes, from the `i`th after the tag code on. -/
def edidY420VideoLoop (b : ℕ → UInt8) (data len : ℕ) : ℕ → ℕ → EdidParser Unit
  | 0, _ => pure ()
  | n + 1, i => do
    let vic ← fetch b data len (1 + i)
    let cap ← getCap
    if HDMI_EDID_MAX_VIC_COUNT ≤ cap.onlySupportY420VicNum then warn .y420vdbVicOver
    else if y420VicInvalid vic then do
      warn .vicInvalid
      edidY420VideoLoop b data len n (i + 1)
    else do
      store .onlySupportY420Format cap.onlySupportY420VicNum (addOnlyY420Format vic.toNat)
      edidY420VideoLoop b data len n (i + 1)

def edidY420VideoDb (b : ℕ → UInt8) (data len : ℕ) : EdidParser Unit :=
  edidY420VideoLoop b data len (len - 1) 0

def addY420Format (i : ℕ) (c : HdmiSinkCapability) : HdmiSinkCapability :=
  { c with
    supportY420Format :=
      Function.update c.supportY420Format c.supportY420VicNum (c.supportFormat i)
    supportY420VicNum := c.supportY420VicNum + 1
    ycbcr420 := true }

/-- `n` more formats, from the `i`th on, all of which support YCbCr 4:2:0. -/
def edidY420AllLoop : ℕ → ℕ → EdidParser Unit
  | 0, _ => pure ()
  | n + 1, i => do
    let cap ← getCap
    Logged.when (cap.supportFormat i ≤ HDMI_EDID_MAX_REAL_VIC ∧
        cap.supportY420VicNum < HDMI_EDID_MAX_VIC_COUNT)
      (store .supportY420Format cap.supportY420VicNum (addY420Format i))
    edidY420AllLoop n (i + 1)

/-- `n` more formats, from the `i`th on, whose bits tell whether they support it. -/
def edidY420MapLoop (b : ℕ → UInt8) (data len : ℕ) : ℕ → ℕ → EdidParser Unit
  | 0, _ => pure ()
  | n + 1, i => do
    let byte ← fetch b data len (1 + i / 8)
    let cap ← getCap
    Logged.when (byte.toNat.testBit (i % 8) ∧
        cap.supportY420VicNum < HDMI_EDID_MAX_VIC_COUNT)
      (store .supportY420Format cap.supportY420VicNum (addY420Format i))
    edidY420MapLoop b data len n (i + 1)

def edidY420CapMapDb (b : ℕ → UInt8) (data len : ℕ) : EdidParser Unit := do
  let cap ← getCap
  let num := min cap.supportVicNum HDMI_EDID_MAX_VIC_COUNT
  if len = 1 then edidY420AllLoop num 0
  else edidY420MapLoop b data len (min (len * 8) num) 0

def edidVideoCapDb (b : ℕ → UInt8) (data len : ℕ) : EdidParser Unit :=
  Logged.when (len ≠ 0) do
    let byte ← fetch b data len 1
    setCap fun c => { c with
      yccQrangeSelectable := edidFlagsMaskCheck byte 0x80
      rgbQrangeSelectable := edidFlagsMaskCheck byte 0x40 }

def edidExtDataBlockParse (b : ℕ → UInt8) (data len : ℕ) : EdidParser Ret := do
  let extTagCode ← fetch b data len 0
  if extTagCode = 0x05 then edidColorimetryDb b data len
  else if extTagCode = 0x0e then do
    Logged.when (len ≠ 0) (edidY420VideoDb b data len)
    pure .success
  else if extTagCode = 0x0f then do
    edidY420CapMapDb b data len
    pure .success
  else if extTagCode = 0x00 then do
    edidVideoCapDb b data len
    pure .success
  else pure .success

end Extended

def edidDbParse (b : ℕ → UInt8) (dbTag data len : ℕ) : EdidParser Ret :=
  if dbTag = 1 then edidAudioDb b data len
  else if dbTag = 2 then edidVideoDb b data len
  else if dbTag = 3 then edidVendorDataBlockParse b data len
  else if dbTag = 4 then edidSpeakerDb b data len
  else if dbTag = 7 then edidExtDataBlockParse b data len
  else pure .success

end OpiaiKernel.Hdmi
