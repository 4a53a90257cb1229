import OpiaiKernel.Pkicms.SocAuth

/-!
# The reads of the verification

All of the header is inside an image that passes the check of its parameters, and
the code is as long as its field says.  Two places read a fixed number of bytes
from a code that may be shorter: the dump of the code when the check of its
signature ends in an error, and the version header after this check has passed.
-/

namespace OpiaiKernel.Pkicms

open Scan

variable {B : Build} {K : Crypto} {E : Env} {b : ℕ → UInt8} {devId size : ℕ} {imgId : ℤ}
  {isNull : Bool}

/-- The check of a signature whose parts lie inside the buffer leaves it only by
the dump of the source. -/
theorem within_rsaVerifySoc {m : ℕ} {ctx : CtxAnswer} {sig : Signature} {sigVal : List UInt8}
    {sigLen src srcLen n nLen signAlg : ℕ} (hn : n + nLen ≤ m) (hn64 : n + 64 ≤ m)
    (hsrc : src + srcLen ≤ m) (hsig : Within m (sig.read sigLen) b)
    (hdump : Within m sig.hexDump b) (hval : (sig.read sigLen).result b = some sigVal) :
    Within m (rsaVerifySoc K ctx sig sigLen src srcLen n nLen signAlg) b ↔
      (ctx = .ready →
        K.rsaFinal ⟨sigVal, bytes b src srcLen, bytes b n nLen, rsaMode signAlg⟩ = none →
        src + 64 ≤ m) := by
  have final : ∀ o, Within m (verifyFinal sig src n o) b ↔ (o = none → src + 64 ≤ m) := by
    intro o
    cases o with
    | none => cases sig <;> simp_all [verifyFinal, hexDump, Signature.hexDump]
    | some r => simp [verifyFinal]
  cases ctx <;> simp [rsaVerifySoc, final, hn, hsrc, hsig, hval]

theorem EsbcHeader.word_le (H : EsbcHeader) {w : ℕ} (hw : w ∈ [H.preamble, H.subkeyCertOffset,
    H.signAlg, H.rootPubKLen, H.codeOffset, H.codeLen, H.signOffset, H.headMagic])
    (hge : GENERAL_IMAGE_OFFSET ≤ size) : w + 4 ≤ size :=
  (H.words w hw).trans hge

theorem Build.certOffset_le : B.certOffset ≤ 0x600 := by
  rw [Build.certOffset]
  split <;> omega

theorem within_prePackageCheck (hge : GENERAL_IMAGE_OFFSET ≤ size) :
    Within size (prePackageCheck B K E size) b := by
  have word := fun w hw => B.header.word_le (w := w) hw hge
  have hash := B.header.hash.trans hge
  have code : GENERAL_IMAGE_OFFSET + (size - GENERAL_IMAGE_OFFSET) ≤ size := by omega
  simp +contextual [prePackageCheck, hashCalSoc, word, hash, code]

theorem within_getEfuseInfo (hge : GENERAL_IMAGE_OFFSET ≤ size) :
    Within size (getEfuseInfo B K E devId) b := by
  have key := B.header.key.trans hge
  have keyE := B.header.keyE.trans hge
  simp [getEfuseInfo, key, keyE]

theorem within_headInfoCheck {ef : EfuseInfo} {sign : ℕ} (hge : GENERAL_IMAGE_OFFSET ≤ size) :
    Within size (headInfoCheck B ef sign) b := by
  have word := fun w hw => B.header.word_le (w := w) hw hge
  simp [headInfoCheck, headOffsetCheck, word]

/-- The certificate and its signature are inside the header. -/
theorem within_subKeyCertAuth {signAlg : ℕ} (hge : GENERAL_IMAGE_OFFSET ≤ size)
    (hroot : u32 b B.header.rootPubKLen = ESBC_ROOTKEY_LEN) :
    Within size (subKeyCertAuth B K E B.certOffset signAlg) b := by
  have word := fun w hw => B.header.word_le (w := w) hw hge
  have key := B.header.key
  have keyE := B.header.keyE
  have cert := B.certOffset_le
  simp only [ESBC_ROOTKEY_LEN, GENERAL_IMAGE_OFFSET] at hge hroot key keyE
  simp only [subKeyCertAuth, within_bind, within_readU32, within_check, within_read,
    result_readU32, result_check, Option.some.injEq, forall_eq', hroot, true_and, implies_true,
    and_true]
  refine ⟨word _ (by simp), by omega, fun _ _ => ⟨by omega, fun _ hok => ⟨?_, fun _ _ _ _ => ?_⟩⟩⟩
  · rw [RSA_E_BYTES]
    omega
  · have len := subKeyLen_of_ok hok
    rw [subKeySign_eq len, certInfoLen_eq len]
    simp only [RSA_SUBKEY_2048_BYTES, RSA_SUBKEY_4096_BYTES] at len
    rw [within_rsaVerifySoc (by omega) (by omega) (by omega) _ _
      (show _ = some (bytes b _ _) from rfl)]
    · intro _ _
      omega
    all_goals simp [Signature.read, Signature.hexDump, hexDump, ESBC_ROOTKEY_LEN]; omega

theorem within_imageSecureAuthHeader {ef : EfuseInfo} {sign : ℕ}
    (hge : GENERAL_IMAGE_OFFSET ≤ size) (hroot : u32 b B.header.rootPubKLen = ESBC_ROOTKEY_LEN) :
    Within size (imageSecureAuthHeader B K E B.certOffset ef sign) b := by
  have cert := B.certOffset_le
  have auth : ∀ signAlg, Within size (subKeyCertAuth B K E B.certOffset signAlg) b :=
    fun _ => within_subKeyCertAuth hge hroot
  simp only [GENERAL_IMAGE_OFFSET] at hge
  simp only [imageSecureAuthHeader, within_bind, within_readU32, within_check, within_read,
    result_readU32, result_check, Option.some.injEq, forall_eq', auth, true_and, implies_true,
    and_true]
  refine ⟨by omega, fun _ _ _ hcert => ⟨by omega, ?_, fun _ _ _ _ => ⟨by omega, fun _ _ => by omega⟩⟩⟩
  have len := (cert_of_subKeyCertAuth hcert).1
  rw [subKeyE_eq len, RSA_E_BYTES]
  simp only [RSA_SUBKEY_2048_BYTES, RSA_SUBKEY_4096_BYTES] at len
  omega

/-- The check of the code's signature stays inside, but for the dump of a code of
fewer than 64 bytes. -/
theorem within_codeCheck (hge : GENERAL_IMAGE_OFFSET ≤ size)
    (hlen : u32 b (B.certOffset + 16) = RSA_SUBKEY_2048_BYTES ∨
      u32 b (B.certOffset + 16) = RSA_SUBKEY_4096_BYTES) :
    Within size (rsaVerifySoc K E.codeCtx
      (.stack (bytes b CODE_SIGN_OFFSET (u32 b (B.certOffset + 16)))) (u32 b (B.certOffset + 16))
      GENERAL_IMAGE_OFFSET (size - GENERAL_IMAGE_OFFSET) (B.certOffset + 24)
      (u32 b (B.certOffset + 16)) (u32 b B.header.signAlg)) b ↔
      (E.codeCtx = .ready → K.rsaFinal (codeCheck B b size) = none →
        GENERAL_IMAGE_OFFSET + 64 ≤ size) := by
  have cert := B.certOffset_le
  simp only [RSA_SUBKEY_2048_BYTES, RSA_SUBKEY_4096_BYTES] at hlen
  have val : ((Signature.stack (bytes b CODE_SIGN_OFFSET (u32 b (B.certOffset + 16)))).read
      (u32 b (B.certOffset + 16))).result b =
        some (bytes b CODE_SIGN_OFFSET (u32 b (B.certOffset + 16))) := by
    simp [Signature.read, List.take_of_length_le]
  have header : 0x2000 ≤ size := hge
  rw [within_rsaVerifySoc (by omega) (by omega) (by omega) (by simp [Signature.read])
    (by simp [Signature.hexDump]) val]
  rfl

theorem within_imageSecureAuth {ef : EfuseInfo} {sign : ℕ} (hge : GENERAL_IMAGE_OFFSET ≤ size)
    (hlen : u32 b B.header.codeLen = size - GENERAL_IMAGE_OFFSET) :
    Within size (imageSecureAuth B K E ef sign) b ↔
      ((headInfoCheck B ef sign).result b = some () →
        (imageSecureAuthHeader B K E B.certOffset ef sign).result b = some () →
        E.codeCtx = .ready → K.rsaFinal (codeCheck B b size) = none →
        GENERAL_IMAGE_OFFSET + 64 ≤ size) := by
  have word := fun w hw => B.header.word_le (w := w) hw hge
  simp only [imageSecureAuth, within_bind, within_readU32, within_read, within_check,
    result_readU32, result_read, Option.some.injEq, forall_eq', within_headInfoCheck hge,
    true_and, implies_true, and_true, word, List.mem_cons, true_or, or_true]
  constructor
  · intro h hinfo hheader
    obtain ⟨⟨hcode, hcert, hsign⟩, -⟩ := headInfoCheck_eq_some.mp hinfo
    rw [hcert, hcode, hsign, hlen] at h
    have len := (cert_of_subKeyCertAuth (subKey_of_imageSecureAuthHeader hheader).1).1
    exact (within_codeCheck hge len).mp ((h () hinfo).2 () hheader).2.2
  · rintro h ⟨⟩ hinfo
    obtain ⟨⟨hcode, hcert, hsign⟩, -, -, hroot, -⟩ := headInfoCheck_eq_some.mp hinfo
    rw [hcert, hcode, hsign, hlen]
    refine ⟨within_imageSecureAuthHeader hge hroot, ?_⟩
    rintro ⟨⟩ hheader
    have len := (cert_of_subKeyCertAuth (subKey_of_imageSecureAuthHeader hheader).1).1
    have header : 0x2000 ≤ size := hge
    have cert := B.certOffset_le
    refine ⟨by omega, ?_, (within_codeCheck hge len).mpr (h hinfo hheader)⟩
    simp only [RSA_SUBKEY_2048_BYTES, RSA_SUBKEY_4096_BYTES] at len
    rw [CODE_SIGN_OFFSET]
    omega

/-- How much of the segment at `imgVer` the check of the version reads. -/
def verNeeds (B : Build) (b : ℕ → UInt8) (imgId : ℤ) (imgVer : ℕ) : ℕ :=
  if ¬ B.signVersion1 ∧ u32 b imgVer ≠ IMG_VER_MAGIC then 4
  else match imgTag imgId with
    | none => if B.signVersion1 then 0 else 4
    | some tag =>
      if bytes b (imgVer + B.verTag) tag.length = tag then B.verNvCnt + 4
      else B.verTag + tag.length

theorem length_imgTag {tag : List UInt8} (h : imgTag imgId = some tag) : tag.length ≤ 16 := by
  simp only [imgTag, Option.map_eq_some_iff] at h
  obtain ⟨e, he, rfl⟩ := h
  have all : ∀ e ∈ imgIdTagMapSoc, e.2.length ≤ 16 := by decide
  exact all e (List.mem_of_find?_eq_some he)

/-- The tag is read if the image has one, the counter if the tag is the right one. -/
theorem within_tagAndCount {imgVer : ℕ} :
    (Within size (pkicmsCheckImgTag imgId (imgVer + B.verTag)) b ∧
      ((pkicmsCheckImgTag imgId (imgVer + B.verTag)).result b = some () →
        imgVer + B.verNvCnt + 4 ≤ size)) ↔
      match imgTag imgId with
        | none => True
        | some tag =>
          if bytes b (imgVer + B.verTag) tag.length = tag then imgVer + B.verNvCnt + 4 ≤ size
          else imgVer + B.verTag + tag.length ≤ size := by
  cases htag : imgTag imgId with
  | none => simp [pkicmsCheckImgTag, htag]
  | some tag =>
    have tagLe := length_imgTag htag
    simp only [pkicmsCheckImgTag, htag, within_bind, within_answer, within_read, within_check,
      result_bind, result_answer, result_read, result_check, Option.some.injEq, exists_eq_left',
      forall_eq', true_and, implies_true, and_true, Build.verNvCnt]
    split_ifs with heq
    · simp only [heq, forall_const]
      omega
    · simp [Ne.symm heq]

theorem within_pkicmsVerCheck {imgVer hwCnt : ℕ} (hle : imgVer ≤ size) :
    Within size (pkicmsVerCheck B imgId imgVer hwCnt) b ↔
      imgVer + verNeeds B b imgId imgVer ≤ size := by
  simp only [pkicmsVerCheck, within_bind, within_readU32, within_check, implies_true, and_true,
    Unique.forall_iff, PUnit.default_eq_unit, within_tagAndCount]
  cases hv : B.signVersion1 with
  | true =>
    simp only [imgVerMagicCheck, hv, if_true, within_pure, result_pure, true_and, forall_const,
      verNeeds, not_true, false_and, if_false]
    cases imgTag imgId with
    | none => simpa using hle
    | some tag =>
      dsimp only
      split_ifs <;> omega
  | false =>
    have tagOff : B.verTag = 4 := by simp [Build.verTag, hv]
    have cntOff : B.verNvCnt = 20 := by simp [Build.verNvCnt, tagOff]
    simp only [imgVerMagicCheck, hv, Bool.false_eq_true, if_false, within_bind, within_readU32,
      within_check, result_bind, result_readU32, result_check, Option.some.injEq, exists_eq_left',
      implies_true, and_true, verNeeds, not_false_eq_true, true_and]
    by_cases hmagic : u32 b imgVer = IMG_VER_MAGIC
    · simp only [hmagic, forall_const, ne_eq, not_true_eq_false, if_false, tagOff, cntOff]
      cases imgTag imgId with
      | none => simp
      | some tag =>
        dsimp only
        split_ifs <;> omega
    · simp [hmagic]

/-- The code is as long as what is read of it on the way that it takes. -/
def Covered (B : Build) (K : Crypto) (E : Env) (devId : ℕ) (imgId : ℤ) (isNull : Bool)
    (b : ℕ → UInt8) (size : ℕ) : Prop :=
  ∀ ef sign, ReachesCode B K E devId isNull b size ef sign → E.codeCtx = .ready →
    (K.rsaFinal (codeCheck B b size) = none → GENERAL_IMAGE_OFFSET + 64 ≤ size) ∧
    (K.rsaFinal (codeCheck B b size) = some 1 →
      GENERAL_IMAGE_OFFSET + verNeeds B b imgId GENERAL_IMAGE_OFFSET ≤ size)

theorem within_socVerify :
    Within size (socVerify B K E devId imgId isNull size) b ↔
      Covered B K E devId imgId isNull b size := by
  simp only [socVerify, within_bind, within_check, result_check, true_and]
  constructor
  · intro h ef sign reach hctx
    have hlen := (prePackageCheck_eq_some.mp reach.prePackage).2.2.2.2.1
    obtain ⟨-, h⟩ := h () reach.supported () ⟨reach.device, reach.notNull, reach.size_ge,
      reach.size_le⟩
    obtain ⟨-, h⟩ := h () reach.prePackage () reach.chip
    have hsecure := h ef reach.efuse
    rw [if_neg reach.enabled] at hsecure
    simp only [within_bind, within_answer, result_answer, true_and] at hsecure
    obtain ⟨hauth, hver⟩ := hsecure sign reach.configured
    refine ⟨(within_imageSecureAuth reach.size_ge hlen).mp hauth reach.headInfo reach.header hctx,
      fun hfinal => ?_⟩
    exact (within_pkicmsVerCheck reach.size_ge).mp (hver () ((imageSecureAuth_eq_some hlen).mpr
      ⟨reach.headInfo, reach.header, hctx, hfinal⟩))
  · rintro h ⟨⟩ hsup ⟨⟩ ⟨hdev, hnull, hge, hle⟩
    refine ⟨within_prePackageCheck hge, ?_⟩
    rintro ⟨⟩ hpre ⟨⟩ hchip
    refine ⟨within_getEfuseInfo hge, fun ef hef => ?_⟩
    have hlen := (prePackageCheck_eq_some.mp hpre).2.2.2.2.1
    split
    · exact within_pure
    next hblank =>
    simp only [within_bind, within_answer, result_answer, true_and]
    intro sign hsign
    have reach := fun hinfo hheader => h ef sign ⟨hsup, hnull, hdev, hge, hle, hpre, hchip, hef,
      hblank, hsign, hinfo, hheader⟩
    refine ⟨(within_imageSecureAuth hge hlen).mpr fun hinfo hheader hctx =>
      (reach hinfo hheader hctx).1, ?_⟩
    rintro ⟨⟩ hauth
    obtain ⟨hinfo, hheader, hctx, hfinal⟩ := (imageSecureAuth_eq_some hlen).mp hauth
    exact (within_pkicmsVerCheck hge).mpr ((reach hinfo hheader hctx).2 hfinal)

/-- An image of at least 64 bytes of code is never read outside. -/
theorem within_socVerify_of_le (h : GENERAL_IMAGE_OFFSET + 64 ≤ size) :
    Within size (socVerify B K E devId imgId isNull size) b := by
  refine within_socVerify.mpr fun ef sign _ _ => ⟨fun _ => h, fun _ => le_trans ?_ h⟩
  have needs : verNeeds B b imgId GENERAL_IMAGE_OFFSET ≤ 64 := by
    have tagOff : B.verTag ≤ 4 := by
      rw [Build.verTag]
      split <;> omega
    rw [verNeeds, Build.verNvCnt]
    split_ifs
    · omega
    all_goals
      split
      · omega
      next tag htag =>
      have tagLe := length_imgTag htag
      split_ifs <;> omega
  omega

/-- Under secure boot, acceptance proves the image and the image is read inside
its buffer exactly if its code is long enough for the way of the run. -/
theorem no_bypass_iff_covered (hs : SecureBoot B E devId) :
    (((socVerify B K E devId imgId isNull size).result b = some () →
        Verified B K E devId imgId b size) ∧
      Within size (socVerify B K E devId imgId isNull size) b) ↔
      Covered B K E devId imgId isNull b size :=
  ⟨fun h => within_socVerify.mp h.2, fun h =>
    ⟨fun hok => verified_of_socVerify hs hok, within_socVerify.mpr h⟩⟩

/-! ### A signed image -/

def sampleBuild : Build where
  signVersion1 := false
  pssSign := true
  pkcsSign := true
  rsa2048 := true
  rsa4096 := true
  cloudV2 := false
  envEsl := false
  mdcV51 := false
  notSupportSocVerify := false
  deviceNumMax := 2
  sign := .inl rfl
  rsa := .inl rfl

/-- A hash that is the same for all data; the certificate verifies, and the check
of the code ends with `code`. -/
def sampleCrypto (code : Option ℤ) : Crypto where
  sha256 _ := Vector.replicate 32 1
  rsaFinal c := if c.src.length = 536 then some 1 else code

def sampleEnv : Env where
  codeHashOk := true
  rootHashOk := true
  certCtx := .ready
  codeCtx := .ready
  chipType := 0
  pssCfg := some PKCS_SIGN_TYPE_ON
  readEfuseReg _ offset :=
    if offset = sampleBuild.EFUSE_NS_FORBID_OFFSET then some 1
    else if offset < sampleBuild.EFUSE_ROTPK1_OFFSET then some 0
    else if offset < sampleBuild.EFUSE_HW_CATEGORY_OFFSET then some 0x01010101
    else some 0
  gNvcntValue _ := 0

/-- The bytes that are not 0: the magics, the hash of the code, the offsets and
lengths, the exponents, the fields of the certificate and the version header. -/
def sampleImage (codeLen : UInt8) : ℕ → UInt8
  | 0 | 2 => 0xaa
  | 1 | 3 => 0x55
  | 77 => 0x05
  | 85 => 0x02
  | 1109 | 1111 => 1
  | 1113 => 0x20
  | 1116 => codeLen
  | 1121 => 0x0E
  | 1208 | 1210 => 0xcc
  | 1209 | 1211 => 0x33
  | 1297 => 1
  | 1301 => 2
  | 1813 | 1815 => 1
  | 0x2000 => 0x33
  | 0x2001 => 0xaa
  | 0x2002 | 0x2003 => 0x3a
  | 0x2004 => 0x74
  | 0x2005 => 0x73
  | 0x2006 => 0x63
  | 0x2007 => 0x68
  | 0x2008 => 0x66
  | 0x2009 => 0x77
  | i => if 44 ≤ i ∧ i < 76 then 1 else 0

theorem sample_secureBoot : SecureBoot sampleBuild sampleEnv 0 := by
  intro w hw
  have word : nsForbid sampleBuild sampleEnv 0 = some 1 := by decide +kernel
  rw [word] at hw
  cases hw
  decide

/-- An image with 64 bytes of code is accepted, with all of the properties. -/
theorem sample_verified :
    Verified sampleBuild (sampleCrypto (some 1)) sampleEnv 0 0 (sampleImage 64) 0x2040 ∧
      Within 0x2040 (socVerify sampleBuild (sampleCrypto (some 1)) sampleEnv 0 0 false 0x2040)
        (sampleImage 64) := by
  have covered : Covered sampleBuild (sampleCrypto (some 1)) sampleEnv 0 0 false
      (sampleImage 64) 0x2040 :=
    within_socVerify.mp (within_socVerify_of_le (by decide))
  have both := (no_bypass_iff_covered sample_secureBoot).mpr covered
  exact ⟨both.1 (by decide +kernel), both.2⟩

/-- The dump reads 64 bytes of an image with one byte of code. -/
theorem sample_overread :
    SecureBoot sampleBuild sampleEnv 0 ∧
      ¬ Within 0x2001 (socVerify sampleBuild (sampleCrypto none) sampleEnv 0 0 false 0x2001)
        (sampleImage 1) :=
  ⟨sample_secureBoot, by decide +kernel⟩

end OpiaiKernel.Pkicms
