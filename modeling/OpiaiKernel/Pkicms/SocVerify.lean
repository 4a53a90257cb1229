import Mathlib.Data.Int.Notation
import OpiaiKernel.Lib.Scan
import Mathlib.Data.FinEnum

/-!
# Verification of a firmware image

An image is a header of `GENERAL_IMAGE_OFFSET` bytes and the code after it.
`soc_verify` checks the fields of the header and the hash of the code, then, when
the efuse asks for it, the root key against the efuse, the certificate of the
sub-key against the root key, the code against the sub-key, and the version
header at the start of the code.

The functions are translated from `soc_verify.c` and `pkicms_common.c`, as scans
of the memory at the image.  The build decides the layout of the headers and the
algorithms; SHA-256 and the check of a signature are parameters, and the answers
of the kernel and of the device are given.  A library function is counted as
reading all of the range that it is passed.
-/

namespace OpiaiKernel.Pkicms

open Scan

def ESBC_ROOTKEY_LEN : ℕ := 512
def ESBC_HASH_SIZE : ℕ := 32
def GENERAL_IMAGE_OFFSET : ℕ := 0x2000
def MAX_IMAGE_SIZE : ℕ := 0x20000000
def CODE_SIGN_OFFSET : ℕ := 0xE00
def BOOT_PRE_PARAM : ℕ := 0x55aa55aa
def BOOT_MAGIC_CODE : ℕ := 0x33cc33cc
def RSA_SUBKEY_2048_BYTES : ℕ := 256
def RSA_SUBKEY_4096_BYTES : ℕ := 512
def RSA_E_BYTES : ℕ := 3
def SIGN_RSA_PKCS_MODE : ℕ := 0
def SIGN_RSA_PSS_MODE : ℕ := 1
def PKCS_SIGN_TYPE_ON : ℕ := 0
def CHIP_TYPE_BS9SX1A : ℤ := 2
def INVALID_NVCNT : ℕ := 0xFFFFFFFF
def IMG_VER_MAGIC : ℕ := 0x3a3aaa33
def IMG_NVCNT_VER_MAX : ℕ := 31
def BIT_POS_MAX : ℕ := 32
def EFUSE_HASH_WORDS : ℕ := 8

/-- Where the fields of `esbc_header_t` are. -/
structure EsbcHeader where
  preamble : ℕ
  srcHash : ℕ
  subkeyCertOffset : ℕ
  signAlg : ℕ
  rootPubKLen : ℕ
  rootPubKey : ℕ
  rootPubKeyE : ℕ
  codeOffset : ℕ
  codeLen : ℕ
  signOffset : ℕ
  headMagic : ℕ
  words : ∀ w ∈ [preamble, subkeyCertOffset, signAlg, rootPubKLen, codeOffset, codeLen,
    signOffset, headMagic], w + 4 ≤ GENERAL_IMAGE_OFFSET
  hash : srcHash + ESBC_HASH_SIZE ≤ GENERAL_IMAGE_OFFSET
  key : rootPubKey + ESBC_ROOTKEY_LEN ≤ GENERAL_IMAGE_OFFSET
  keyE : rootPubKeyE + ESBC_ROOTKEY_LEN ≤ GENERAL_IMAGE_OFFSET

def esbcHeader : EsbcHeader where
  preamble := 0
  srcHash := 44
  subkeyCertOffset := 76
  signAlg := 80
  rootPubKLen := 84
  rootPubKey := 88
  rootPubKeyE := 600
  codeOffset := 1112
  codeLen := 1116
  signOffset := 1120
  headMagic := 1208
  words := by decide
  hash := by decide
  key := by decide
  keyE := by decide

/-- The header of `CFG_FEATURE_SIGN_VERSION_1`. -/
def esbcHeaderV1 : EsbcHeader where
  preamble := 0
  srcHash := 64
  subkeyCertOffset := 96
  signAlg := 108
  rootPubKLen := 112
  rootPubKey := 116
  rootPubKeyE := 628
  codeOffset := 1140
  codeLen := 1144
  signOffset := 1148
  headMagic := 1372
  words := by decide
  hash := by decide
  key := by decide
  keyE := by decide

/-- The features of a build.  A build without a kind of signature or without a
length of the sub-key does not compile. -/
structure Build where
  signVersion1 : Bool
  pssSign : Bool
  pkcsSign : Bool
  rsa2048 : Bool
  rsa4096 : Bool
  cloudV2 : Bool
  envEsl : Bool
  mdcV51 : Bool
  notSupportSocVerify : Bool
  deviceNumMax : ℕ
  sign : pssSign ∨ pkcsSign
  rsa : rsa2048 ∨ rsa4096

namespace Build

variable (B : Build)

def header : EsbcHeader := if B.signVersion1 then esbcHeaderV1 else esbcHeader

/-- `SUBKEY_CERT_OFFSET`. -/
def certOffset : ℕ := if B.signVersion1 then 0x600 else 0x500

/-- The tag and the counter in `img_ver_header`. -/
def verTag : ℕ := if B.signVersion1 then 0 else 4

def verNvCnt : ℕ := B.verTag + 16

def efuse0CtrlBase : ℕ := if B.cloudV2 then 0x703B40000 else 0x81260000

def efuse1CtrlBase : ℕ := if B.cloudV2 then 0x703B50000 else 0x81270000

def EFUSE_NS_FORBID_OFFSET : ℕ :=
  B.efuse0CtrlBase + if B.cloudV2 then 0xE384 else 0xE080

def EFUSE_ROTPK1_OFFSET : ℕ := B.efuse1CtrlBase + 0xE228

def EFUSE_HW_CATEGORY_OFFSET : ℕ := B.efuse1CtrlBase + 0xE248

def EFUSE_SUBKEYID_MASK : ℕ := B.efuse1CtrlBase + 0xE21C

/-- The lengths of a sub-key that `sub_key_cert_auth` takes. -/
def subKeyLenOk (len : ℕ) : Bool :=
  if B.rsa2048 && B.rsa4096 then len == RSA_SUBKEY_2048_BYTES || len == RSA_SUBKEY_4096_BYTES
  else if B.rsa4096 then len == RSA_SUBKEY_4096_BYTES
  else len == RSA_SUBKEY_2048_BYTES

/-- The kind of a signature is one that the build and the configuration take. -/
def signAlgOk (rsaSignAlg sign : ℕ) : Bool :=
  if B.pssSign && B.pkcsSign then
    (rsaSignAlg == SIGN_RSA_PKCS_MODE || rsaSignAlg == SIGN_RSA_PSS_MODE) &&
      !(sign == SIGN_RSA_PSS_MODE && rsaSignAlg != SIGN_RSA_PSS_MODE)
  else if B.pkcsSign then rsaSignAlg == SIGN_RSA_PKCS_MODE && sign == SIGN_RSA_PKCS_MODE
  else rsaSignAlg == SIGN_RSA_PSS_MODE && sign == SIGN_RSA_PSS_MODE

end Build

inductive RsaMode
  | pkcs
  | pss (saltLen : ℕ)
  deriving DecidableEq

/-- The mode that `rsa_verify_soc` takes from a `sign_alg` field. -/
def rsaMode (signAlg : ℕ) : RsaMode :=
  if (signAlg >>> 16) % 64 = SIGN_RSA_PKCS_MODE then .pkcs else .pss ((signAlg >>> 0x16) % 1024)

/-- The check of a signature of `src` with the modulus `n`; the exponent is
65537. -/
structure RsaCheck where
  sig : List UInt8
  src : List UInt8
  n : List UInt8
  mode : RsaMode
  deriving DecidableEq

/-- The final call of a check ends in an error or in a result, where 1 is
success. -/
structure Crypto where
  sha256 : List UInt8 → Vector UInt8 32
  rsaFinal : RsaCheck → Option ℤ

/-- How far a check comes before its final call. -/
inductive CtxAnswer
  | createFails
  | initFails
  | updateFails
  | ready
  deriving DecidableEq

/-- What the kernel and the devices answer in one run. -/
structure Env where
  codeHashOk : Bool
  rootHashOk : Bool
  certCtx : CtxAnswer
  codeCtx : CtxAnswer
  chipType : ℤ
  pssCfg : Option ℕ
  readEfuseReg : (devId offset : ℕ) → Option UInt32
  gNvcntValue : (devId : ℕ) → ℕ

inductive EfuseCheckResult
  | fail
  | success
  | blank
  deriving DecidableEq

/-- `efuse_info_t`. -/
structure EfuseInfo where
  hwHashCheck : EfuseCheckResult
  hwCategory : ℕ
  hwSubKeyId : ℕ
  hwL2NvCnt : ℕ

variable (B : Build) (K : Crypto) (E : Env)

def hashCalSoc (ok : Bool) (off len : ℕ) : Scan (List UInt8) := do
  let data ← read off len
  check (ok = true)
  return (K.sha256 data).toList

/-- A signature in the image or in a copy on the stack. -/
inductive Signature
  | image (off : ℕ)
  | stack (signature : List UInt8)

def Signature.read : Signature → ℕ → Scan (List UInt8)
  | image off, len => Scan.read off len
  | stack signature, len => pure (signature.take len)

/-- `print_hex_dump` of 64 bytes. -/
def hexDump (off : ℕ) : Scan Unit := do
  let _ ← read off 64
  return ()

def Signature.hexDump : Signature → Scan Unit
  | image off => Pkicms.hexDump off
  | stack _ => pure ()

/-- The end of a check: its result, or the dump of an error. -/
def verifyFinal (sig : Signature) (src n : ℕ) : Option ℤ → Scan ℤ
  | some result => pure result
  | none => do
    sig.hexDump
    hexDump src
    hexDump n
    fail

def rsaVerifySoc (ctx : CtxAnswer) (sig : Signature) (sigLen src srcLen n nLen signAlg : ℕ) :
    Scan ℤ := do
  check (ctx ≠ .createFails)
  let nVal ← read n nLen
  check (ctx ≠ .initFails)
  let data ← read src srcLen
  check (ctx ≠ .updateFails)
  let sigVal ← sig.read sigLen
  verifyFinal sig src n (K.rsaFinal ⟨sigVal, data, nVal, rsaMode signAlg⟩)

/-- `sub_key_cert_t` has a header of 24 bytes, then the modulus, the exponent and
the signature, the first two as long as the sub-key is. -/
def subKeySign (cert len : ℕ) : ℕ :=
  if len = RSA_SUBKEY_2048_BYTES then cert + 24 + 2 * RSA_SUBKEY_2048_BYTES
  else cert + 24 + 2 * RSA_SUBKEY_4096_BYTES

def subKeyE (cert len : ℕ) : ℕ :=
  if len = RSA_SUBKEY_2048_BYTES then cert + 24 + RSA_SUBKEY_2048_BYTES
  else cert + 24 + RSA_SUBKEY_4096_BYTES

/-- `sizeof(sub_key_cert_t)`. -/
def sizeofSubKeyCert : ℕ := 24 + 3 * 512

def certInfoLen (len : ℕ) : ℕ :=
  if len = RSA_SUBKEY_2048_BYTES then sizeofSubKeyCert - ESBC_ROOTKEY_LEN - RSA_SUBKEY_4096_BYTES
  else sizeofSubKeyCert - ESBC_ROOTKEY_LEN

def subKeyCertAuth (cert signAlg : ℕ) : Scan Unit := do
  let rootLen ← readU32 B.header.rootPubKLen
  let signLen ← readU32 (cert + 20)
  check (signLen = ESBC_ROOTKEY_LEN)
  let len ← readU32 (cert + 16)
  check (B.subKeyLenOk len = true)
  let imagePubE ← read (B.header.rootPubKeyE + rootLen - RSA_E_BYTES) RSA_E_BYTES
  check (imagePubE = [1, 0, 1])
  let result ← rsaVerifySoc K E.certCtx (.image (subKeySign cert len)) ESBC_ROOTKEY_LEN
    cert (certInfoLen len) B.header.rootPubKey rootLen signAlg
  check (result = 1)

def imageSecureAuthHeader (cert : ℕ) (ef : EfuseInfo) (sign : ℕ) : Scan Unit := do
  let signAlg ← readU32 (cert + 4)
  check (B.signAlgOk ((signAlg >>> 16) % 64) sign = true)
  subKeyCertAuth B K E cert signAlg
  let len ← readU32 (cert + 16)
  let subKeyPubE ← read (subKeyE cert len + len - RSA_E_BYTES) RSA_E_BYTES
  check (subKeyPubE = [1, 0, 1])
  let category ← readU32 (cert + 8)
  check (ef.hwCategory = category)
  let id ← readU32 (cert + 12)
  check ((1 <<< (id % 32)) &&& ef.hwSubKeyId = 0)

def headOffsetCheck : Scan Unit := do
  let codeOffset ← readU32 B.header.codeOffset
  check (codeOffset = GENERAL_IMAGE_OFFSET)
  let certOffset ← readU32 B.header.subkeyCertOffset
  check (certOffset = B.certOffset)
  let signOffset ← readU32 B.header.signOffset
  check (signOffset = CODE_SIGN_OFFSET)

def headInfoCheck (ef : EfuseInfo) (sign : ℕ) : Scan Unit := do
  headOffsetCheck B
  let signAlg ← readU32 B.header.signAlg
  check (signAlg % 2 ^ 16 = 0)
  check (B.signAlgOk ((signAlg >>> 16) % 64) sign = true)
  let rootLen ← readU32 B.header.rootPubKLen
  check (rootLen = ESBC_ROOTKEY_LEN)
  check (ef.hwHashCheck = .success)

def imageSecureAuth (ef : EfuseInfo) (sign : ℕ) : Scan Unit := do
  let cert ← readU32 B.header.subkeyCertOffset
  let sig ← readU32 B.header.signOffset
  let codeSec ← readU32 B.header.codeOffset
  headInfoCheck B ef sign
  imageSecureAuthHeader B K E cert ef sign
  let len ← readU32 (cert + 16)
  let signature ← read sig len
  let codeLen ← readU32 B.header.codeLen
  let signAlg ← readU32 B.header.signAlg
  let result ← rsaVerifySoc K E.codeCtx (.stack signature) len codeSec codeLen
    (cert + 24) len signAlg
  check (result = 1)

def prePackageCheck (size : ℕ) : Scan Unit := do
  let preamble ← readU32 B.header.preamble
  check (preamble = BOOT_PRE_PARAM)
  let magic ← readU32 B.header.headMagic
  check (magic = BOOT_MAGIC_CODE)
  let codeLen ← readU32 B.header.codeLen
  check (codeLen ≠ 0 ∧ codeLen ≤ MAX_IMAGE_SIZE ∧ codeLen = size - GENERAL_IMAGE_OFFSET)
  let digest ← hashCalSoc K E.codeHashOk GENERAL_IMAGE_OFFSET codeLen
  let srcHash ← read B.header.srcHash ESBC_HASH_SIZE
  check (digest = srcHash)

/-- The bytes of a register in memory. -/
def leBytes (w : UInt32) : List UInt8 :=
  [w.toUInt8, (w >>> 8).toUInt8, (w >>> 16).toUInt8, (w >>> 24).toUInt8]

/-- The bytes of the root hash in the efuse. -/
def efuseHash (devId : ℕ) : Option (List UInt8) := do
  let words ← (List.range EFUSE_HASH_WORDS).mapM fun i =>
    E.readEfuseReg devId (B.EFUSE_ROTPK1_OFFSET + i * 4)
  return words.flatMap leBytes

/-- A hash of another key than the efuse's ends the check in a failure, as an
error does. -/
def efuseHashCheck (devId : ℕ) (pubKey : List UInt8) : Option EfuseCheckResult := do
  let hash ← efuseHash B E devId
  guard ¬ (∀ x ∈ hash, x = 0)
  guard (E.rootHashOk = true)
  guard (hash.reverse = (K.sha256 pubKey).toList)
  return .success

/-- The word that says whether secure boot is enabled. -/
def nsForbid (devId : ℕ) : Option ℕ :=
  if B.envEsl then some 0
  else if B.cloudV2 then do
    let low ← E.readEfuseReg devId B.EFUSE_NS_FORBID_OFFSET
    let high ← E.readEfuseReg devId (B.EFUSE_NS_FORBID_OFFSET + 4)
    return ((high.toNat * 2 ^ 32 + low.toNat) >>> 23) % 2 ^ 32
  else do
    let word ← E.readEfuseReg devId B.EFUSE_NS_FORBID_OFFSET
    return word.toNat

def efuseReadAndHashCheck (devId : ℕ) (pubKey : List UInt8) : Option EfuseInfo := do
  let outValue ← nsForbid B E devId
  if outValue = 0 then
    return { hwHashCheck := .blank, hwCategory := 0, hwSubKeyId := 0, hwL2NvCnt := 0 }
  else
    let hashCheck ← efuseHashCheck B K E devId pubKey
    let category ← E.readEfuseReg devId B.EFUSE_HW_CATEGORY_OFFSET
    let mask ← E.readEfuseReg devId B.EFUSE_SUBKEYID_MASK
    guard (E.gNvcntValue devId ≠ INVALID_NVCNT)
    return {
      hwHashCheck := hashCheck
      hwCategory := category.toNat
      hwSubKeyId := mask.toNat
      hwL2NvCnt := E.gNvcntValue devId }

def getEfuseInfo (devId : ℕ) : Scan EfuseInfo := do
  let key ← read B.header.rootPubKey ESBC_ROOTKEY_LEN
  let keyE ← read B.header.rootPubKeyE ESBC_ROOTKEY_LEN
  answer (efuseReadAndHashCheck B K E devId (key ++ keyE))

/-- The bytes of a string, with the one that ends it. -/
def cString (s : List Char) : List UInt8 := s.map (fun c => UInt8.ofNat c.toNat) ++ [0]

def imgIdTagMapSoc : List (ℤ × List UInt8) :=
  [(0, cString ['t', 's', 'c', 'h', 'f', 'w']),
    (1, cString ['a', 'i', 'c', 'p', 'u', '_', 'k', 'e', 'r', 'n', 'e', 'l', 's']),
    (2, cString ['f', 'f', 't', 's', 'p', 'l', 'u', 's', 'f', 'w'])]

/-- The tag of an image in the table. -/
def imgTag (imgId : ℤ) : Option (List UInt8) :=
  (imgIdTagMapSoc.find? fun e => e.1 = imgId).map (·.2)

def pkicmsCheckImgTag (imgId : ℤ) (tagOff : ℕ) : Scan Unit := do
  let tag ← answer (imgTag imgId)
  let imgVerTag ← read tagOff tag.length
  check (tag = imgVerTag)

/-- The position of the last bit set below `size`, `size` if there is none. -/
def findLastBit (w size : ℕ) : ℕ :=
  lastBitBelow size
where
  lastBitBelow : ℕ → ℕ
    | 0 => size
    | n + 1 => if w.testBit n then n else lastBitBelow n

def imgVerMagicCheck (imgVer : ℕ) : Scan Unit :=
  if B.signVersion1 then pure ()
  else do
    let magic ← readU32 imgVer
    check (magic = IMG_VER_MAGIC)

def pkicmsVerCheck (imgId : ℤ) (imgVer hwCnt : ℕ) : Scan Unit := do
  imgVerMagicCheck B imgVer
  pkicmsCheckImgTag imgId (imgVer + B.verTag)
  let nvCnt ← readU32 (imgVer + B.verNvCnt)
  check (nvCnt ≤ IMG_NVCNT_VER_MAX)
  check (hwCnt = 0 ∨ findLastBit hwCnt BIT_POS_MAX < nvCnt)

/-- The configured kind of signature. -/
def signType : Option ℕ := if B.pssSign then E.pssCfg else some PKCS_SIGN_TYPE_ON

def socVerify (devId : ℕ) (imgId : ℤ) (baseIsNull : Bool) (size : ℕ) : Scan Unit := do
  check (B.notSupportSocVerify = false)
  check (devId < B.deviceNumMax ∧ baseIsNull = false ∧ GENERAL_IMAGE_OFFSET ≤ size ∧
    size ≤ MAX_IMAGE_SIZE)
  prePackageCheck B K E size
  check (B.mdcV51 = true → E.chipType ≠ CHIP_TYPE_BS9SX1A)
  let ef ← getEfuseInfo B K E devId
  if ef.hwHashCheck = .blank then pure ()
  else do
    let sign ← answer (signType B E)
    imageSecureAuth B K E ef sign
    pkicmsVerCheck B imgId GENERAL_IMAGE_OFFSET ef.hwL2NvCnt

end OpiaiKernel.Pkicms
