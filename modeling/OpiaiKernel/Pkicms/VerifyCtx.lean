import OpiaiKernel.Lib.Heap

/-!
# The verification context

A context for the check of a signature has a digest context, which has the
transform and the descriptor of a SHA-256, and the integers of the key.  The
digest frees its transform and descriptor when it fails or ends; the other
objects are freed by the functions of the context.

The functions are translated from `cmscbb.c` and `pkicms_common.c`.  The calls of
the kernel that may fail come with an answer; a `memset_s` of a block that was
just allocated does not fail.  `CmscbbFree` reads the header of the block that it
frees.
-/

namespace OpiaiKernel.Pkicms

inductive CmscbbError
  | sysMemAlloc
  | contextInvalidParam
  | contextInvalidStruct
  | pkiCryptoDigestInit
  | pkiCryptoDigestUpdate
  | pkiCryptoDigestFinal
  | pkiCmsVerifyFailed
  | pkiCmsSigAlgo
  | undefined
  deriving DecidableEq

def CMSCBB_HASH_SHA256 : ℕ := 43

/-- `shash_sha256_t`. -/
structure ShashSha256 where
  shash : Option ℕ
  desc : Option ℕ

/-- `TA_CRYPTO_MD`. -/
structure TaCryptoMd where
  hashAlgo : ℕ
  op : ShashSha256

/-- `TA_CRYPTO_VRF`. -/
structure TaCryptoVrf where
  mdCtx : Option ℕ
  ekey : Option ℕ
  nkey : Option ℕ

/-- The handle of the caller, and what the context and its digest context hold. -/
structure VrfState where
  heap : Heap
  vrfCtx : Option ℕ
  vrf : TaCryptoVrf
  md : TaCryptoMd

def vrfInit : VrfState where
  heap := .empty
  vrfCtx := none
  vrf := { mdCtx := none, ekey := none, nkey := none }
  md := { hashAlgo := 0, op := { shash := none, desc := none } }

def useAll (h : Heap) (ps : List (Option ℕ)) : Heap :=
  ps.foldl (fun h p => p.elim h h.use) h

/-! ## The digest -/

structure Sha256InitAnswers where
  allocShash : Bool
  kmalloc : Bool
  shashInit : Bool

def freeShashSha256 (h : Heap) (sha256 : ShashSha256) : Heap × ShashSha256 :=
  let h := sha256.shash.elim h h.free
  let h := sha256.desc.elim h fun desc => (h.use desc).free desc
  (h, { shash := none, desc := none })

/-- Whether it succeeds comes last. -/
def pkicmsSha256Init (h : Heap) (ans : Sha256InitAnswers) : Heap × ShashSha256 × Bool :=
  if ans.allocShash = false then (h, { shash := none, desc := none }, false)
  else
    let (shash, h) := h.alloc
    if ans.kmalloc = false then
      let (h, sha256) := freeShashSha256 h { shash := some shash, desc := none }
      (h, sha256, false)
    else
      let (desc, h) := h.alloc
      let h := h.use desc
      if ans.shashInit = false then
        let (h, sha256) := freeShashSha256 h { shash := some shash, desc := some desc }
        (h, sha256, false)
      else (h, { shash := some shash, desc := some desc }, true)

def pkicmsSha256Update (h : Heap) (sha256 : ShashSha256) (dataNull ok : Bool) :
    Heap × ShashSha256 × Bool :=
  match sha256.desc with
  | none => (h, sha256, false)
  | some desc =>
      if dataNull = true then (h, sha256, false)
      else
        let h := h.use desc
        if ok = false then
          let (h, sha256) := freeShashSha256 h sha256
          (h, sha256, false)
        else (h, sha256, true)

def pkicmsSha256Final (h : Heap) (sha256 : ShashSha256) (ok : Bool) : Heap × ShashSha256 × Bool :=
  match sha256.desc with
  | none => (h, sha256, false)
  | some desc =>
      let (h, sha256) := freeShashSha256 (h.use desc) sha256
      (h, sha256, ok)

structure Sha256StringAnswers where
  init : Sha256InitAnswers
  update : Bool
  final : Bool

def pkicmsSha256String (h : Heap) (ans : Sha256StringAnswers) : Heap × Bool :=
  match pkicmsSha256Init h ans.init with
  | (h, _, false) => (h, false)
  | (h, sha256, true) =>
      match pkicmsSha256Update h sha256 false ans.update with
      | (h, sha256, false) =>
          let (h, _, _) := pkicmsSha256Final h sha256 ans.final
          (h, false)
      | (h, sha256, true) =>
          let (h, _, ret) := pkicmsSha256Final h sha256 ans.final
          (h, ret)

/-- Digests one after the other, until one fails. -/
def pkicmsSha256Strings (h : Heap) : List Sha256StringAnswers → Heap × Bool
  | [] => (h, true)
  | ans :: rest =>
      match pkicmsSha256String h ans with
      | (h, false) => (h, false)
      | (h, true) => pkicmsSha256Strings h rest

/-! ## The context -/

/-- The header of the block is read. -/
def cmscbbFree (h : Heap) (p : Option ℕ) : Heap := p.elim h fun p => (h.use p).free p

structure CreateArgs where
  ctxNull : Bool
  mallocVrf : Bool
  mallocMd : Bool

def cmscbbCryptoVerifyCreateCtx (s : VrfState) (args : CreateArgs) :
    VrfState × Except CmscbbError Unit :=
  if args.ctxNull = true then (s, .error .contextInvalidParam)
  else if args.mallocVrf = false then (s, .error .sysMemAlloc)
  else
    let (pvrf, h) := s.heap.alloc
    if args.mallocMd = false then ({ s with heap := cmscbbFree h pvrf }, .error .sysMemAlloc)
    else
      let (pmd, h) := h.alloc
      ({ heap := h
         vrfCtx := some pvrf
         vrf := { mdCtx := some pmd, ekey := none, nkey := none }
         md := { hashAlgo := 0, op := { shash := none, desc := none } } }, .ok ())

def cmscbbMdInit (s : VrfState) (hashId : ℕ) (ans : Sha256InitAnswers) :
    VrfState × Except CmscbbError Unit :=
  match s.vrf.mdCtx with
  | none => (s, .error .contextInvalidParam)
  | some pmd =>
      let s := { s with heap := s.heap.use pmd, md := { s.md with hashAlgo := hashId } }
      if hashId = CMSCBB_HASH_SHA256 then
        let (h, op, ok) := pkicmsSha256Init s.heap ans
        ({ s with heap := h, md := { s.md with op := op } },
          if ok = true then .ok () else .error .pkiCryptoDigestInit)
      else (s, .error .undefined)

/-- `valid` says that the arguments pass the checks of the build's variant. -/
structure InitArgs where
  valid : Bool
  hashId : ℕ
  sha256 : Sha256InitAnswers
  readE : Bool
  readN : Bool

def cmscbbCryptoVerifyInit (s : VrfState) (args : InitArgs) : VrfState × Except CmscbbError Unit :=
  match s.vrfCtx with
  | none => (s, .error .contextInvalidParam)
  | some pvrf =>
      if args.valid = false then (s, .error .contextInvalidParam)
      else
        match cmscbbMdInit { s with heap := s.heap.use pvrf } args.hashId args.sha256 with
        | (s, .error _) => (s, .error .sysMemAlloc)
        | (s, .ok _) =>
            if args.readE = false then
              ({ s with heap := s.heap.use pvrf, vrf := { s.vrf with ekey := none } },
                .error .contextInvalidParam)
            else
              let (ekey, h) := s.heap.alloc
              let h := h.use pvrf
              if args.readN = false then
                ({ s with heap := h.free ekey, vrf := { s.vrf with ekey := none, nkey := none } },
                  .error .contextInvalidStruct)
              else
                let (nkey, h) := h.alloc
                ({ s with heap := h, vrf := { s.vrf with ekey := some ekey, nkey := some nkey } },
                  .ok ())

structure UpdateArgs where
  dataNull : Bool
  len : ℕ
  shashUpdate : Bool

def cmscbbMdUpdate (s : VrfState) (pmd : ℕ) (args : UpdateArgs) :
    VrfState × Except CmscbbError Unit :=
  if (args.dataNull = true ∧ args.len ≠ 0) ∨ (args.dataNull = false ∧ args.len = 0) then
    (s, .error .contextInvalidParam)
  else
    let s := { s with heap := s.heap.use pmd }
    if s.md.hashAlgo = CMSCBB_HASH_SHA256 then
      let (h, op, ok) := pkicmsSha256Update s.heap s.md.op args.dataNull args.shashUpdate
      ({ s with heap := h, md := { s.md with op := op } },
        if ok = true then .ok () else .error .pkiCryptoDigestUpdate)
    else (s, .error .undefined)

/-- The digest context is freed when the update fails. -/
def cmscbbCryptoVerifyUpdate (s : VrfState) (args : UpdateArgs) :
    VrfState × Except CmscbbError Unit :=
  match s.vrfCtx with
  | none => (s, .error .contextInvalidParam)
  | some pvrf =>
      let s := { s with heap := s.heap.use pvrf }
      match s.vrf.mdCtx with
      | none => (s, .error .contextInvalidParam)
      | some pmd =>
          if (args.dataNull = true ∧ args.len ≠ 0) ∨ (args.len = 0 ∧ args.dataNull = false) then
            ({ s with heap := cmscbbFree s.heap pmd }, .error .contextInvalidParam)
          else
            match cmscbbMdUpdate s pmd args with
            | (s, .error e) => ({ s with heap := cmscbbFree s.heap pmd }, .error e)
            | (s, .ok _) => (s, .ok ())

def cmscbbMdFinal (s : VrfState) (pmd : ℕ) (ok : Bool) : VrfState × Except CmscbbError Unit :=
  let s := { s with heap := s.heap.use pmd }
  if s.md.hashAlgo = CMSCBB_HASH_SHA256 then
    let (h, op, ret) := pkicmsSha256Final s.heap s.md.op ok
    ({ s with heap := h, md := { s.md with op := op } },
      if ret = true then .ok () else .error .pkiCryptoDigestFinal)
  else (s, .error .undefined)

/-- A call of the final in one of the two modes.  The PSS check computes digests
of its own. -/
structure FinalArgs where
  pss : Bool
  resultNull : Bool
  shashFinal : Bool
  readSig : Bool
  allocDec : Bool
  powm : Bool
  buffer : Bool
  digests : List Sha256StringAnswers
  accepted : Bool

/-- `rsa_verify_v15` or `rsa_verify_pss` on the recovered buffer. -/
def rsaVerify (h : Heap) (args : FinalArgs) (buffer : ℕ) : Heap × Bool :=
  let h := h.use buffer
  if args.pss = true then
    let (h, ok) := pkicmsSha256Strings h args.digests
    (h, ok && args.accepted)
  else (h, args.accepted)

/-- `CmscbbVerifyRsa`, which the PSS variant has in its body. -/
def cmscbbVerifyRsa (s : VrfState) (pmd : ℕ) (args : FinalArgs) :
    VrfState × Except CmscbbError Unit :=
  if args.readSig = false then (s, .error .pkiCmsVerifyFailed)
  else
    let (sig, h) := s.heap.alloc
    if args.allocDec = false then ({ s with heap := h.free sig }, .error .pkiCmsVerifyFailed)
    else
      let (dec, h) := h.alloc
      let h := useAll h [some dec, some sig, s.vrfCtx, s.vrf.ekey, s.vrf.nkey]
      if args.powm = false then
        ({ s with heap := (h.free sig).free dec }, .error .pkiCmsVerifyFailed)
      else
        let h := h.use dec
        if args.buffer = false then
          ({ s with heap := (h.free sig).free dec }, .error .pkiCmsSigAlgo)
        else
          let (buffer, h) := h.alloc
          let h := (h.free sig).free dec
          let (h, ok) := rsaVerify (h.use pmd) args buffer
          ({ s with heap := h.free buffer },
            if ok = true then .ok () else .error .pkiCmsVerifyFailed)

/-- `CmscbbCryptoPkcsVerifyFinal` and `CmscbbCryptoPssVerifyFinal`.  The result
that they store says whether they succeed. -/
def cmscbbCryptoVerifyFinal (s : VrfState) (args : FinalArgs) :
    VrfState × Except CmscbbError Unit :=
  match s.vrfCtx with
  | none => (s, .error .contextInvalidParam)
  | some pvrf =>
      let s := { s with heap := s.heap.use pvrf }
      match s.vrf.mdCtx with
      | none => (s, .error .contextInvalidParam)
      | some pmd =>
          if args.resultNull = true then
            ({ s with heap := cmscbbFree s.heap pmd }, .error .contextInvalidParam)
          else
            match cmscbbMdFinal s pmd args.shashFinal with
            | (s, .error e) => (s, .error e)
            | (s, .ok _) => cmscbbVerifyRsa s pmd args

/-- The transform and the descriptor are left alone. -/
def cmscbbCryptoVerifyDestroyCtx (s : VrfState) : VrfState :=
  match s.vrfCtx with
  | none => s
  | some pvrf =>
      let h := s.heap.use pvrf
      let h := cmscbbFree h s.vrf.mdCtx
      let h := s.vrf.ekey.elim h h.free
      let h := s.vrf.nkey.elim h h.free
      { s with
        heap := cmscbbFree h pvrf
        vrf := { s.vrf with ekey := none, nkey := none } }

/-! ## A session -/

structure VrfSession where
  create : CreateArgs
  init : InitArgs
  updates : List UpdateArgs
  final : Option FinalArgs

def runUpdates (s : VrfState) (updates : List UpdateArgs) : VrfState :=
  updates.foldl (fun s args => (cmscbbCryptoVerifyUpdate s args).1) s

def runSession (session : VrfSession) : VrfState :=
  let s := (cmscbbCryptoVerifyCreateCtx vrfInit session.create).1
  let s := (cmscbbCryptoVerifyInit s session.init).1
  let s := runUpdates s session.updates
  let s := session.final.elim s fun args => (cmscbbCryptoVerifyFinal s args).1
  cmscbbCryptoVerifyDestroyCtx s

/-- The creation made a context. -/
def CreateArgs.creates (args : CreateArgs) : Bool :=
  !args.ctxNull && args.mallocVrf && args.mallocMd

/-- The initialization left the transform and the descriptor. -/
def InitArgs.startsHash (args : InitArgs) : Bool :=
  args.valid && decide (args.hashId = CMSCBB_HASH_SHA256) && args.sha256.allocShash &&
    args.sha256.kmalloc && args.sha256.shashInit

def UpdateArgs.feedsHash (args : UpdateArgs) : Bool :=
  !args.dataNull && decide (args.len ≠ 0) && args.shashUpdate

/-- The objects are released: an update feeds the digest, the final has a place
for its result, and a digest that was started is ended by a final. -/
def VrfSession.Released (session : VrfSession) : Prop :=
  session.create.creates = true →
    (∀ args ∈ session.updates, session.init.startsHash = true ∧ args.feedsHash = true) ∧
      match session.final with
      | none => session.init.startsHash = false
      | some args => args.resultNull = false

end OpiaiKernel.Pkicms
