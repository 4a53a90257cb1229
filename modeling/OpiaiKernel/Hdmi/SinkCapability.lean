import Mathlib.Algebra.Order.Ring.Int
import OpiaiKernel.Lib.Logged

/-!
# The capability of a sink

What the parsers of an EDID extension block read and write: the bytes in memory
from the first one of the block on, and the capability of the sink, with its
arrays.  Both kinds of access are logged.
-/

namespace OpiaiKernel.Hdmi

def HDMI_EDID_BLOCK_SIZE : ℕ := 128
def HDMI_EDID_MAX_VIC_COUNT : ℕ := 128
def HDMI_EDID_MAX_AUDIO_CAP_COUNT : ℕ := 16
def HDMI_EDID_MAX_SAMPE_RATE_NUM : ℕ := 8
def HDMI_EDID_MAX_BIT_DEPTH_NUM : ℕ := 6
def HDMI_EDID_MAX_DETAIL_TIMING_COUNT : ℕ := 10
def HDMI_EDID_MAX_SINKNAME_COUNT : ℕ := 14
def HDMI_EDID_MAX_AUDIO_SPEAKER_COUNT : ℕ := 12
def HDMI_EDID_3D_BUTT : ℕ := 9
def HDMI_EDID_MAX_REAL_VIC : ℕ := 255

/-- The bits of `parse_warn` that the parsers of an extension block set. -/
inductive HdmiEdidParseWarn
  | dtdOver
  | audioCntOver
  | audioFmtInvalid
  | vicCntOver
  | vicInvalid
  | vsdbInvalid
  | hfvsdbInvalid
  | spkdbInvalid
  | y420vdbVicOver
  | blocklenInvalid
  deriving DecidableEq

def HdmiEdidParseWarn.code : HdmiEdidParseWarn → ℕ
  | dtdOver => 2
  | audioCntOver => 6
  | audioFmtInvalid => 7
  | vicCntOver => 8
  | vicInvalid => 9
  | vsdbInvalid => 10
  | hfvsdbInvalid => 11
  | spkdbInvalid => 12
  | y420vdbVicOver => 13
  | blocklenInvalid => 14

structure HdmiEdidPreTiming where
  vfb : UInt32 := 0
  vbb : UInt32 := 0
  vact : UInt32 := 0
  hfb : UInt32 := 0
  hbb : UInt32 := 0
  hact : UInt32 := 0
  vpw : UInt32 := 0
  hpw : UInt32 := 0
  idv : Bool := false
  ihs : Bool := false
  ivs : Bool := false
  imageWidth : UInt32 := 0
  imageHeight : UInt32 := 0
  interlace : Bool := false
  pixelClk : UInt32 := 0

structure HdmiEdidAudioInfo where
  audFmtCode : ℕ := 0
  supportSampleRate : ℕ → ℕ := fun _ => 0
  supportBitDepth : ℕ → ℕ := fun _ => 0
  supportSampleRateNum : ℕ := 0
  audChannel : ℕ := 0
  supportBitDepthNum : ℕ := 0
  maxBitRate : ℕ := 0

structure HdmiEdidDeepColor where
  deepColorY444 : Bool := false
  deepColor30Bit : Bool := false
  deepColor36Bit : Bool := false
  deepColor48Bit : Bool := false

structure HdmiEdidDeepColorY420 where
  deepColor30Bit : Bool := false
  deepColor36Bit : Bool := false
  deepColor48Bit : Bool := false

structure HdmiEdidColorimetry where
  xvycc601 : Bool := false
  xvycc709 : Bool := false
  sycc601 : Bool := false
  adobleYcc601 : Bool := false
  adobleRgb : Bool := false
  bt2020cYcc : Bool := false
  bt2020Ycc : Bool := false
  bt2020Rgb : Bool := false

structure HdmiEdidCecAddress where
  phyAddrValid : Bool := false
  phyAddrA : UInt8 := 0
  phyAddrB : UInt8 := 0
  phyAddrC : UInt8 := 0
  phyAddrD : UInt8 := 0

structure HdmiEdidDscInfo where
  dsc1p2 : Bool := false
  dscNative420 : Bool := false
  dscAllBpp : Bool := false
  dsc10bpc : Bool := false
  dsc12bpc : Bool := false
  dsc16bpc : Bool := false
  dscMaxSlices : UInt8 := 0
  dscMaxFrlRate : UInt8 := 0
  dscTotalChunkKBytes : UInt8 := 0

/-- The fields that the parsers of an extension block read or write. -/
structure HdmiSinkCapability where
  supportHdmi : Bool := false
  nativeFormat : ℕ := 0
  supportVicNum : ℕ := 0
  supportFormat : ℕ → ℕ := fun _ => 0
  support3d : Bool := false
  support3dType : ℕ → Bool := fun _ => false
  deepColor : HdmiEdidDeepColor := {}
  colorMetry : HdmiEdidColorimetry := {}
  ycbcr420 : Bool := false
  audioInfo : ℕ → HdmiEdidAudioInfo := fun _ => {}
  mdBit : UInt8 := 0
  audioInfoNum : ℕ := 0
  supportAudioSpeaker : ℕ → Bool := fun _ => false
  sinkName : ℕ → UInt8 := fun _ => 0
  cecAddr : HdmiEdidCecAddress := {}
  perferTiming : ℕ → HdmiEdidPreTiming := fun _ => {}
  supportDviDual : Bool := false
  supportsAi : Bool := false
  perferTimingNum : ℕ := 0
  maxTmdsClock : ℕ := 0
  iLatencyFieldsPresent : Bool := false
  latencyFieldsPresent : Bool := false
  hdmiVideoPresent : Bool := false
  videoLatency : UInt8 := 0
  audioLatency : UInt8 := 0
  interlacedVideoLatency : UInt8 := 0
  interlacedAudioLatency : UInt8 := 0
  supportHdmi20 : Bool := false
  supportScdc : Bool := false
  supportRrCapable : Bool := false
  supportLte340McscScrameble : Bool := false
  support3dOsdDisparity : Bool := false
  support3dDualView : Bool := false
  support3dIndependentView : Bool := false
  supportY420VicNum : ℕ := 0
  supportY420Format : ℕ → ℕ := fun _ => 0
  onlySupportY420VicNum : ℕ := 0
  onlySupportY420Format : ℕ → ℕ := fun _ => 0
  yccQrangeSelectable : Bool := false
  rgbQrangeSelectable : Bool := false
  ccbpci : Bool := false
  maxFrlRate : UInt8 := 0
  fapaStartLocation : Bool := false
  allm : Bool := false
  fva : Bool := false
  cnmVrr : Bool := false
  cinemaVrr : Bool := false
  mDelta : Bool := false
  vrrMin : UInt8 := 0
  vrrMax : ℕ := 0
  dscInfo : HdmiEdidDscInfo := {}
  deepColorY420 : HdmiEdidDeepColorY420 := {}

/-- The capability, and `parse_warn` of the status. -/
structure Sink where
  cap : HdmiSinkCapability := {}
  parseWarn : ℕ := 0

def Sink.mapCap (f : HdmiSinkCapability → HdmiSinkCapability) (s : Sink) : Sink :=
  { s with cap := f s.cap }

/-- The arrays of the capability that the parsers write. -/
inductive CapArray
  | supportFormat
  | support3dType
  | audioInfo
  | supportSampleRate
  | supportBitDepth
  | supportAudioSpeaker
  | sinkName
  | perferTiming
  | supportY420Format
  | onlySupportY420Format
  deriving DecidableEq

def CapArray.size : CapArray → ℕ
  | supportFormat => HDMI_EDID_MAX_VIC_COUNT
  | support3dType => HDMI_EDID_3D_BUTT
  | audioInfo => HDMI_EDID_MAX_AUDIO_CAP_COUNT
  | supportSampleRate => HDMI_EDID_MAX_SAMPE_RATE_NUM
  | supportBitDepth => HDMI_EDID_MAX_BIT_DEPTH_NUM
  | supportAudioSpeaker => HDMI_EDID_MAX_AUDIO_SPEAKER_COUNT
  | sinkName => HDMI_EDID_MAX_SINKNAME_COUNT
  | perferTiming => HDMI_EDID_MAX_DETAIL_TIMING_COUNT
  | supportY420Format => HDMI_EDID_MAX_VIC_COUNT
  | onlySupportY420Format => HDMI_EDID_MAX_VIC_COUNT

/-- A function that was given `len` bytes at `data` reads the byte at `addr`, both
counted from the first byte of the block; or one element of an array is written. -/
inductive Access
  | read (data len addr : ℕ)
  | write (array : CapArray) (index : ℕ)
  deriving DecidableEq

def Access.Inside : Access → Prop
  | read data len addr => data ≤ addr ∧ addr < data + len ∧ addr < HDMI_EDID_BLOCK_SIZE
  | write array index => index < array.size

abbrev EdidParser := Logged Access Sink

namespace EdidParser

/-- Byte `i` of the `len` bytes at `data`. -/
def fetch (b : ℕ → UInt8) (data len i : ℕ) : EdidParser UInt8 :=
  Logged.log (.read data len (data + i)) (b (data + i))

def setCap (f : HdmiSinkCapability → HdmiSinkCapability) : EdidParser Unit :=
  Logged.modify (Sink.mapCap f)

def store (array : CapArray) (index : ℕ) (f : HdmiSinkCapability → HdmiSinkCapability) :
    EdidParser Unit := do
  Logged.log (.write array index) ()
  setCap f

def warn (w : HdmiEdidParseWarn) : EdidParser Unit :=
  Logged.modify fun s => { s with parseWarn := s.parseWarn ||| 1 <<< w.code }

def getCap : EdidParser HdmiSinkCapability := do
  let s ← Logged.get
  pure s.cap

end EdidParser

inductive Ret
  | success
  | failure
  deriving DecidableEq

/-- `edid_flags_mask_check`, the test that every flag is read with. -/
def edidFlagsMaskCheck (data mask : UInt8) : Bool := data &&& mask ≠ 0

end OpiaiKernel.Hdmi
