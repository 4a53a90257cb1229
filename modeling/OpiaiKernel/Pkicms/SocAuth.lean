import OpiaiKernel.Pkicms.SocVerify

/-!
# No bypass of the verification

An image that passes under secure boot has a root key of the efuse, a certified
sub-key, a signed code and an admitted version.  Each check is first turned into
what it establishes; the flow of a run then puts them together.
-/

namespace OpiaiKernel.Pkicms

open Scan

variable {B : Build} {K : Crypto} {E : Env} {b : ℕ → UInt8} {devId size : ℕ} {imgId : ℤ}
  {isNull : Bool}

/-- The efuse of the device asks for the verification. -/
def SecureBoot (B : Build) (E : Env) (devId : ℕ) : Prop :=
  ∀ w, nsForbid B E devId = some w → w ≠ 0

/-- What the certificate of the sub-key is checked for. -/
def certCheck (B : Build) (b : ℕ → UInt8) : RsaCheck :=
  let len := u32 b (B.certOffset + 16)
  { sig := bytes b (B.certOffset + 24 + 2 * len) ESBC_ROOTKEY_LEN
    src := bytes b B.certOffset (24 + 2 * len)
    n := bytes b B.header.rootPubKey ESBC_ROOTKEY_LEN
    mode := rsaMode (u32 b (B.certOffset + 4)) }

/-- What the code is checked for. -/
def codeCheck (B : Build) (b : ℕ → UInt8) (size : ℕ) : RsaCheck :=
  let len := u32 b (B.certOffset + 16)
  { sig := bytes b CODE_SIGN_OFFSET len
    src := bytes b GENERAL_IMAGE_OFFSET (size - GENERAL_IMAGE_OFFSET)
    n := bytes b (B.certOffset + 24) len
    mode := rsaMode (u32 b B.header.signAlg) }

/-- The properties of an image that may be accepted. -/
structure Verified (B : Build) (K : Crypto) (E : Env) (devId : ℕ) (imgId : ℤ)
    (b : ℕ → UInt8) (size : ℕ) : Prop where
  rootKey : ∃ hash, efuseHash B E devId = some hash ∧ (∃ x ∈ hash, x ≠ 0) ∧
    (K.sha256 (bytes b B.header.rootPubKey ESBC_ROOTKEY_LEN ++
      bytes b B.header.rootPubKeyE ESBC_ROOTKEY_LEN)).toList = hash.reverse
  subKeyLen : u32 b (B.certOffset + 16) = RSA_SUBKEY_2048_BYTES ∨
    u32 b (B.certOffset + 16) = RSA_SUBKEY_4096_BYTES
  cert : K.rsaFinal (certCheck B b) = some 1
  category : ∃ w, E.readEfuseReg devId B.EFUSE_HW_CATEGORY_OFFSET = some w ∧
    w.toNat = u32 b (B.certOffset + 8)
  notRevoked : ∃ w, E.readEfuseReg devId B.EFUSE_SUBKEYID_MASK = some w ∧
    w.toNat.testBit (u32 b (B.certOffset + 12) % 32) = false
  codeHash : (K.sha256 (bytes b GENERAL_IMAGE_OFFSET (size - GENERAL_IMAGE_OFFSET))).toList =
    bytes b B.header.srcHash ESBC_HASH_SIZE
  code : K.rsaFinal (codeCheck B b size) = some 1
  tag : ∃ tag, imgTag imgId = some tag ∧
    bytes b (GENERAL_IMAGE_OFFSET + B.verTag) tag.length = tag
  nvCnt : ∀ i < BIT_POS_MAX, (E.gNvcntValue devId).testBit i = true →
    i < u32 b (GENERAL_IMAGE_OFFSET + B.verNvCnt)

/-! ### What each check establishes -/

theorem hashCalSoc_eq_some {ok : Bool} {off len : ℕ} {d : List UInt8} :
    (hashCalSoc K ok off len).result b = some d ↔
      ok = true ∧ (K.sha256 (bytes b off len)).toList = d := by
  simp [hashCalSoc]

theorem prePackageCheck_eq_some :
    (prePackageCheck B K E size).result b = some () ↔
      u32 b B.header.preamble = BOOT_PRE_PARAM ∧ u32 b B.header.headMagic = BOOT_MAGIC_CODE ∧
      u32 b B.header.codeLen ≠ 0 ∧ u32 b B.header.codeLen ≤ MAX_IMAGE_SIZE ∧
      u32 b B.header.codeLen = size - GENERAL_IMAGE_OFFSET ∧ E.codeHashOk = true ∧
      (K.sha256 (bytes b GENERAL_IMAGE_OFFSET (u32 b B.header.codeLen))).toList =
        bytes b B.header.srcHash ESBC_HASH_SIZE := by
  simp [prePackageCheck, hashCalSoc_eq_some, and_assoc]

theorem headInfoCheck_eq_some {ef : EfuseInfo} {sign : ℕ} :
    (headInfoCheck B ef sign).result b = some () ↔
      (u32 b B.header.codeOffset = GENERAL_IMAGE_OFFSET ∧
        u32 b B.header.subkeyCertOffset = B.certOffset ∧
        u32 b B.header.signOffset = CODE_SIGN_OFFSET) ∧
      u32 b B.header.signAlg % 2 ^ 16 = 0 ∧
      B.signAlgOk ((u32 b B.header.signAlg >>> 16) % 64) sign = true ∧
      u32 b B.header.rootPubKLen = ESBC_ROOTKEY_LEN ∧ ef.hwHashCheck = .success := by
  simp [headInfoCheck, headOffsetCheck]

@[simp] theorem verifyFinal_eq_some {sig : Signature} {src n : ℕ} {o : Option ℤ} {r : ℤ} :
    (verifyFinal sig src n o).result b = some r ↔ o = some r := by
  cases o <;> simp [verifyFinal]

theorem rsaVerifySoc_eq_some {ctx : CtxAnswer} {sig : Signature}
    {sigLen src srcLen n nLen signAlg : ℕ} {r : ℤ} :
    (rsaVerifySoc K ctx sig sigLen src srcLen n nLen signAlg).result b = some r ↔
      ctx = .ready ∧ ∃ sigVal, (sig.read sigLen).result b = some sigVal ∧
        K.rsaFinal ⟨sigVal, bytes b src srcLen, bytes b n nLen, rsaMode signAlg⟩ = some r := by
  cases ctx <;> simp [rsaVerifySoc]

theorem subKeyLen_of_ok {len : ℕ} (h : B.subKeyLenOk len = true) :
    len = RSA_SUBKEY_2048_BYTES ∨ len = RSA_SUBKEY_4096_BYTES := by
  simp only [Build.subKeyLenOk] at h
  split_ifs at h
  · simpa using h
  · exact .inr (by simpa using h)
  · exact .inl (by simpa using h)

theorem certInfoLen_eq {len : ℕ} (h : len = RSA_SUBKEY_2048_BYTES ∨ len = RSA_SUBKEY_4096_BYTES) :
    certInfoLen len = 24 + 2 * len := by
  rcases h with rfl | rfl <;> decide

theorem subKeySign_eq {cert len : ℕ}
    (h : len = RSA_SUBKEY_2048_BYTES ∨ len = RSA_SUBKEY_4096_BYTES) :
    subKeySign cert len = cert + 24 + 2 * len := by
  rcases h with rfl | rfl <;> rfl

theorem subKeyE_eq {cert len : ℕ}
    (h : len = RSA_SUBKEY_2048_BYTES ∨ len = RSA_SUBKEY_4096_BYTES) :
    subKeyE cert len = cert + 24 + len := by
  rcases h with rfl | rfl <;> rfl

/-- The certificate is signed with a root key of the length that the header says. -/
theorem cert_of_subKeyCertAuth {cert signAlg : ℕ}
    (h : (subKeyCertAuth B K E cert signAlg).result b = some ()) :
    (u32 b (cert + 16) = RSA_SUBKEY_2048_BYTES ∨ u32 b (cert + 16) = RSA_SUBKEY_4096_BYTES) ∧
      K.rsaFinal
        { sig := bytes b (cert + 24 + 2 * u32 b (cert + 16)) ESBC_ROOTKEY_LEN
          src := bytes b cert (24 + 2 * u32 b (cert + 16))
          n := bytes b B.header.rootPubKey (u32 b B.header.rootPubKLen)
          mode := rsaMode signAlg } = some 1 := by
  simp only [subKeyCertAuth, result_bind, result_readU32, result_read, result_check,
    rsaVerifySoc_eq_some, Signature.read, Option.some.injEq, exists_eq_left', exists_const] at h
  obtain ⟨-, hlen, -, r, ⟨-, hfinal⟩, rfl⟩ := h
  have len := subKeyLen_of_ok hlen
  rw [subKeySign_eq len, certInfoLen_eq len] at hfinal
  exact ⟨len, hfinal⟩

theorem testBit_of_mask {i mask : ℕ} (h : (1 <<< i) &&& mask = 0) : mask.testBit i = false := by
  have bit := congrArg (Nat.testBit · i) h
  simpa [Nat.one_shiftLeft, Nat.testBit_and, Nat.testBit_two_pow_self] using bit

/-- The sub-key is certified, of the category of the efuse and not revoked. -/
theorem subKey_of_imageSecureAuthHeader {cert sign : ℕ} {ef : EfuseInfo}
    (h : (imageSecureAuthHeader B K E cert ef sign).result b = some ()) :
    (subKeyCertAuth B K E cert (u32 b (cert + 4))).result b = some () ∧
      ef.hwCategory = u32 b (cert + 8) ∧
      ef.hwSubKeyId.testBit (u32 b (cert + 12) % 32) = false := by
  simp only [imageSecureAuthHeader, result_bind, result_readU32, result_read, result_check,
    Option.some.injEq, exists_eq_left', exists_const] at h
  obtain ⟨-, ⟨⟩, hcert, -, hcat, hid⟩ := h
  exact ⟨hcert, hcat, testBit_of_mask hid⟩

/-- With secure boot, the efuse was read and its hash is that of the key. -/
theorem efuse_of_efuseReadAndHashCheck {pubKey : List UInt8} {ef : EfuseInfo}
    (hs : SecureBoot B E devId)
    (h : efuseReadAndHashCheck B K E devId pubKey = some ef) :
    ef.hwHashCheck = .success ∧ ef.hwL2NvCnt = E.gNvcntValue devId ∧
      (∃ hash, efuseHash B E devId = some hash ∧ (∃ x ∈ hash, x ≠ 0) ∧
        (K.sha256 pubKey).toList = hash.reverse) ∧
      (∃ w, E.readEfuseReg devId B.EFUSE_HW_CATEGORY_OFFSET = some w ∧
        w.toNat = ef.hwCategory) ∧
      ∃ w, E.readEfuseReg devId B.EFUSE_SUBKEYID_MASK = some w ∧
        w.toNat = ef.hwSubKeyId := by
  simp only [efuseReadAndHashCheck, Option.bind_eq_bind, Option.bind_eq_some_iff] at h
  obtain ⟨w, hw, h⟩ := h
  rw [if_neg (hs w hw)] at h
  simp only [efuseHashCheck, Option.bind_eq_bind, Option.bind_eq_some_iff, Option.pure_def,
    Option.some.injEq, Option.guard_eq_some'] at h
  obtain ⟨c, ⟨hash, hhash, _, hzero, _, -, _, heq, rfl⟩, cat, hcat, mask, hmask, _, -, rfl⟩ := h
  push Not at hzero
  exact ⟨rfl, rfl, ⟨hash, hhash, hzero, heq.symm⟩, ⟨cat, hcat, rfl⟩, ⟨mask, hmask, rfl⟩⟩

/-- A set bit below `size` is at most the last one. -/
theorem le_findLastBit {w size i : ℕ} (hi : i < size) (hbit : w.testBit i = true) :
    i ≤ findLastBit w size := by
  suffices ∀ n, i < n → i ≤ findLastBit.lastBitBelow w size n from this size hi
  intro n hn
  induction n with
  | zero => omega
  | succ n ih =>
    rw [findLastBit.lastBitBelow]
    split_ifs with hlast
    · omega
    · have hne : i ≠ n := by
        rintro rfl
        exact hlast hbit
      exact ih (by omega)

/-- The version is admitted by its tag and its counter. -/
theorem version_of_pkicmsVerCheck {imgVer hwCnt : ℕ}
    (h : (pkicmsVerCheck B imgId imgVer hwCnt).result b = some ()) :
    (∃ tag, imgTag imgId = some tag ∧ bytes b (imgVer + B.verTag) tag.length = tag) ∧
      ∀ i < BIT_POS_MAX, hwCnt.testBit i = true → i < u32 b (imgVer + B.verNvCnt) := by
  simp only [pkicmsVerCheck, pkicmsCheckImgTag, result_bind, result_readU32, result_read,
    result_answer, result_check, Option.some.injEq, exists_eq_left', exists_const] at h
  obtain ⟨⟨⟩, -, ⟨tag, htag, heq⟩, -, hcnt⟩ := h
  refine ⟨⟨tag, htag, heq.symm⟩, fun i hi hbit => ?_⟩
  rcases hcnt with rfl | hlast
  · simp at hbit
  · exact (le_findLastBit hi hbit).trans_lt hlast

/-! ### The flow of a verification -/

/-- The checks before the signature of the code pass, with this information of the
efuse and this kind of signature. -/
structure ReachesCode (B : Build) (K : Crypto) (E : Env) (devId : ℕ) (isNull : Bool)
    (b : ℕ → UInt8) (size : ℕ) (ef : EfuseInfo) (sign : ℕ) : Prop where
  supported : B.notSupportSocVerify = false
  notNull : isNull = false
  device : devId < B.deviceNumMax
  size_ge : GENERAL_IMAGE_OFFSET ≤ size
  size_le : size ≤ MAX_IMAGE_SIZE
  prePackage : (prePackageCheck B K E size).result b = some ()
  chip : B.mdcV51 = true → E.chipType ≠ CHIP_TYPE_BS9SX1A
  efuse : (getEfuseInfo B K E devId).result b = some ef
  enabled : ef.hwHashCheck ≠ .blank
  configured : signType B E = some sign
  headInfo : (headInfoCheck B ef sign).result b = some ()
  header : (imageSecureAuthHeader B K E B.certOffset ef sign).result b = some ()

theorem imageSecureAuth_eq_some {ef : EfuseInfo} {sign : ℕ}
    (hlen : u32 b B.header.codeLen = size - GENERAL_IMAGE_OFFSET) :
    (imageSecureAuth B K E ef sign).result b = some () ↔
      (headInfoCheck B ef sign).result b = some () ∧
      (imageSecureAuthHeader B K E B.certOffset ef sign).result b = some () ∧
      E.codeCtx = .ready ∧ K.rsaFinal (codeCheck B b size) = some 1 := by
  simp only [imageSecureAuth, result_bind, result_readU32, result_read, Option.some.injEq,
    exists_eq_left', result_check, rsaVerifySoc_eq_some, Signature.read, result_pure]
  constructor
  · rintro ⟨⟨⟩, hinfo, ⟨⟩, hheader, r, ⟨hctx, hfinal⟩, rfl⟩
    obtain ⟨⟨hcode, hcert, hsign⟩, -⟩ := headInfoCheck_eq_some.mp hinfo
    rw [hcert] at hheader hfinal
    refine ⟨hinfo, hheader, hctx, ?_⟩
    simpa [codeCheck, hcode, hsign, hlen, List.take_of_length_le] using hfinal
  · rintro ⟨hinfo, hheader, hctx, hfinal⟩
    obtain ⟨⟨hcode, hcert, hsign⟩, -⟩ := headInfoCheck_eq_some.mp hinfo
    rw [hcert]
    refine ⟨(), hinfo, (), hheader, 1, ⟨hctx, ?_⟩, rfl⟩
    simpa [codeCheck, hcode, hsign, hlen, List.take_of_length_le] using hfinal

theorem efuse_of_getEfuseInfo {ef : EfuseInfo} (hs : SecureBoot B E devId)
    (h : (getEfuseInfo B K E devId).result b = some ef) :
    ef.hwHashCheck = .success ∧ ef.hwL2NvCnt = E.gNvcntValue devId ∧
      (∃ hash, efuseHash B E devId = some hash ∧ (∃ x ∈ hash, x ≠ 0) ∧
        (K.sha256 (bytes b B.header.rootPubKey ESBC_ROOTKEY_LEN ++
          bytes b B.header.rootPubKeyE ESBC_ROOTKEY_LEN)).toList = hash.reverse) ∧
      (∃ w, E.readEfuseReg devId B.EFUSE_HW_CATEGORY_OFFSET = some w ∧
        w.toNat = ef.hwCategory) ∧
      ∃ w, E.readEfuseReg devId B.EFUSE_SUBKEYID_MASK = some w ∧
        w.toNat = ef.hwSubKeyId :=
  efuse_of_efuseReadAndHashCheck hs (by simpa [getEfuseInfo] using h)

/-- With secure boot, an image is accepted exactly if all the checks up to the
code's signature, this one and the one of the version pass. -/
theorem socVerify_eq_some (hs : SecureBoot B E devId) :
    (socVerify B K E devId imgId isNull size).result b = some () ↔
      ∃ ef sign, ReachesCode B K E devId isNull b size ef sign ∧
        E.codeCtx = .ready ∧ K.rsaFinal (codeCheck B b size) = some 1 ∧
        (pkicmsVerCheck B imgId GENERAL_IMAGE_OFFSET ef.hwL2NvCnt).result b = some () := by
  have blank : ∀ ef, (getEfuseInfo B K E devId).result b = some ef →
      ef.hwHashCheck ≠ .blank := by
    intro ef hef
    rw [(efuse_of_getEfuseInfo hs hef).1]
    decide
  simp only [socVerify, result_bind, result_check]
  constructor
  · rintro ⟨-, supported, -, ⟨device, notNull, ge, le⟩, ⟨⟩, pre, -, chip, ef, hef, h⟩
    rw [if_neg (blank ef hef)] at h
    simp only [result_bind, result_answer] at h
    obtain ⟨sign, hsign, ⟨⟩, hauth, hver⟩ := h
    have hlen := (prePackageCheck_eq_some.mp pre).2.2.2.2.1
    obtain ⟨hinfo, hheader, hctx, hfinal⟩ := (imageSecureAuth_eq_some hlen).mp hauth
    exact ⟨ef, sign, ⟨supported, notNull, device, ge, le, pre, chip, hef, blank ef hef, hsign,
      hinfo, hheader⟩, hctx, hfinal, hver⟩
  · rintro ⟨ef, sign, h, hctx, hfinal, hver⟩
    have hlen := (prePackageCheck_eq_some.mp h.prePackage).2.2.2.2.1
    refine ⟨(), h.supported, (), ⟨h.device, h.notNull, h.size_ge, h.size_le⟩, (), h.prePackage, (),
      h.chip, ef, h.efuse, ?_⟩
    rw [if_neg h.enabled]
    simp only [result_bind, result_answer]
    exact ⟨sign, h.configured, (),
      (imageSecureAuth_eq_some hlen).mpr ⟨h.headInfo, h.header, hctx, hfinal⟩, hver⟩

/-- An image that is accepted under secure boot has all of the properties. -/
theorem verified_of_socVerify (hs : SecureBoot B E devId)
    (h : (socVerify B K E devId imgId isNull size).result b = some ()) :
    Verified B K E devId imgId b size := by
  obtain ⟨ef, sign, reach, -, hfinal, hver⟩ := (socVerify_eq_some hs).mp h
  obtain ⟨-, hcnt, hkey, ⟨cat, hcat, hcateq⟩, mask, hmask, hmaskeq⟩ :=
    efuse_of_getEfuseInfo hs reach.efuse
  obtain ⟨hcert, hcategory, hrevoked⟩ := subKey_of_imageSecureAuthHeader reach.header
  obtain ⟨hlen, hcertfinal⟩ := cert_of_subKeyCertAuth hcert
  obtain ⟨-, -, -, hroot, -⟩ := headInfoCheck_eq_some.mp reach.headInfo
  obtain ⟨-, -, -, -, hcode, -, hhash⟩ := prePackageCheck_eq_some.mp reach.prePackage
  obtain ⟨htag, hnv⟩ := version_of_pkicmsVerCheck hver
  rw [hroot] at hcertfinal
  rw [hcode] at hhash
  rw [hcnt] at hnv
  exact {
    rootKey := hkey
    subKeyLen := hlen
    cert := hcertfinal
    category := ⟨cat, hcat, hcateq.trans hcategory⟩
    notRevoked := ⟨mask, hmask, hmaskeq ▸ hrevoked⟩
    codeHash := hhash
    code := hfinal
    tag := htag
    nvCnt := hnv }

end OpiaiKernel.Pkicms
