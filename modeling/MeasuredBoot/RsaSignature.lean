import MeasuredBoot.RsaCore

/-!
# RSA signatures (`XSecure_RsaSignVerification`)

What a signature opens to is compared, byte by byte, with the PKCS #1 v1.5 encoding of a SHA3-384 hash.
`rsaSignVerification_iff`: only the encoding passes. `verifySignature_iff`: with a core that exponentiates, a signature
passes if and only if its power is the encoding, so one signature is good for one hash.
-/

namespace MeasuredBoot.Rsa

open Prog

/-! ## Source -/

def xsecureHashTypeSha3 : UInt32 := 48
def xsecureFsblSigSize : Nat := 512
def xsecureRsaBytePadLength : Nat := 3
def xsecureRsaTPadLength : Nat := 19

def xsecureSilicon1TPadSha3 : List UInt8 :=
  [0x30, 0x41, 0x30, 0x0D, 0x06, 0x09, 0x60, 0x86, 0x48, 0x01, 0x65, 0x03, 0x04, 0x02, 0x02, 0x05, 0x00, 0x04, 0x30]

def xsecureSilicon2TPadSha3 : List UInt8 :=
  [0x30, 0x41, 0x30, 0x0D, 0x06, 0x09, 0x60, 0x86, 0x48, 0x01, 0x65, 0x03, 0x04, 0x02, 0x09, 0x05, 0x00, 0x04, 0x30]

def xsecureRsaGetTPadding (psVersion : UInt32) : List UInt8 :=
  if psVersion ≠ 0 then xsecureSilicon2TPadSha3 else xsecureSilicon1TPadSha3

/-- One test, and `PadIndex++`; `none` is `goto ENDF`. -/
def testByte (signature : Mem) (value : UInt8) (padIndex : Nat) : Option Nat :=
  if value ≠ signature padIndex then none else some (padIndex + 1)

/-- A loop of `n` tests. -/
def testBytes (signature : Mem) (value : Nat → UInt8) : Nat → Nat → Nat → Option Nat
  | 0, _, padIndex => some padIndex
  | n + 1, signIndex, padIndex => do
    let padIndex ← testByte signature (value signIndex) padIndex
    testBytes signature value n (signIndex + 1) padIndex

/-- All of the tests. -/
def testSignature (tpadding : List UInt8) (signature : Mem) (hash : Digest) (padLength hashLen : Nat) :
    Option Nat := do
  let padIndex ← testByte signature 0x00 0
  let padIndex ← testByte signature 0x01 padIndex
  let padIndex ← testBytes signature (fun _ => 0xFF) padLength 0 padIndex
  let padIndex ← testByte signature 0x00 padIndex
  let padIndex ← testBytes signature (tpadding.getD · 0) xsecureRsaTPadLength 0 padIndex
  testBytes signature (hash.toList.getD · 0) hashLen 0 padIndex

def xsecureRsaSignVerification (psVersion : UInt32) (signature : Mem) (hash : Digest) (hashLen : UInt32) : UInt32 :=
  if hashLen ≠ xsecureHashTypeSha3 then xsecureRsaInvalidParam
  else
    let padLength := xsecureFsblSigSize - xsecureRsaBytePadLength - xsecureRsaTPadLength - hashLen.toNat
    let tpadding := xsecureRsaGetTPadding psVersion
    if (testSignature tpadding signature hash padLength hashLen.toNat).isSome then xfsblSuccess else xstFailure

/-! ## The encoding -/

/-- PKCS #1 v1.5: `0x00 || 0x01 || 0xFF … 0xFF || 0x00 || T || H`. -/
def encoding (psVersion : UInt32) (hash : Digest) : List UInt8 :=
  0x00 :: 0x01 :: (List.replicate 442 0xFF ++ 0x00 :: (xsecureRsaGetTPadding psVersion ++ hash.toList))

section Encoding

variable {signature : Mem} {value : Nat → UInt8} {v : UInt8} {n i p q : Nat} {psVersion : UInt32}
  {hash : Digest}

theorem length_tPadding : (xsecureRsaGetTPadding psVersion).length = xsecureRsaTPadLength := by
  unfold xsecureRsaGetTPadding
  split <;> rfl

theorem length_encoding : (encoding psVersion hash).length = 512 := by
  unfold encoding
  rw [List.length_cons, List.length_cons, List.length_append, List.length_replicate, List.length_cons,
    List.length_append, length_tPadding, Vector.length_toList]
  rfl

theorem testByte_eq_some : testByte signature v p = some q ↔ signature p = v ∧ p + 1 = q := by
  unfold testByte
  by_cases h : signature p = v
  · rw [if_neg (not_not_intro h.symm)]
    simp [h]
  · rw [if_pos fun hv => h hv.symm]
    simp [h]

theorem testBytes_eq_some : testBytes signature value n i p = some q ↔
    signature.load p n = (List.range' i n).map value ∧ p + n = q := by
  induction n generalizing i p with
  | zero => simp [testBytes, Mem.load]
  | succ n ih =>
    rw [testBytes, Option.bind_eq_bind, Option.bind_eq_some_iff, Mem.load_succ, List.range'_succ, List.map_cons]
    constructor
    · rintro ⟨r, hr, hrest⟩
      obtain ⟨hv, rfl⟩ := testByte_eq_some.1 hr
      obtain ⟨hload, hq⟩ := ih.1 hrest
      exact ⟨by rw [hv, hload], by omega⟩
    · rintro ⟨hload, hq⟩
      obtain ⟨hv, hload⟩ := List.cons.inj hload
      exact ⟨_, testByte_eq_some.2 ⟨hv, rfl⟩, ih.2 ⟨hload, by omega⟩⟩

theorem map_getD (xs : List UInt8) : (List.range' 0 xs.length).map (xs.getD · 0) = xs := by
  apply List.ext_getElem
  · simp
  · intro i h1 h2
    simp [h2]

theorem testSignature_iff :
    (testSignature (xsecureRsaGetTPadding psVersion) signature hash 442 48).isSome = true ↔
      signature.Holds 0 (encoding psVersion hash) := by
  have hff : (List.range' 0 442).map (fun _ => (0xFF : UInt8)) = List.replicate 442 0xFF := by
    rw [List.map_const', List.length_range']
  have htpad : (List.range' 0 xsecureRsaTPadLength).map ((xsecureRsaGetTPadding psVersion).getD · 0) =
      xsecureRsaGetTPadding psVersion := by
    rw [← @length_tPadding psVersion]
    exact map_getD _
  have hhash : (List.range' 0 48).map (hash.toList.getD · 0) = hash.toList := by
    have h := map_getD hash.toList
    rwa [Vector.length_toList] at h
  unfold testSignature
  simp only [Option.isSome_iff_exists, Option.bind_eq_bind, Option.bind_eq_some_iff, testByte_eq_some,
    testBytes_eq_some, hff, htpad, hhash, encoding, Mem.holds_cons, Mem.holds_append, List.length_replicate,
    length_tPadding]
  -- a `Holds` is the load of so many bytes
  have hpad (p : Nat) : signature.Holds p (List.replicate 442 0xFF) ↔
      signature.load p 442 = List.replicate 442 0xFF := by
    rw [Mem.Holds, List.length_replicate]
  have ht (p : Nat) : signature.Holds p (xsecureRsaGetTPadding psVersion) ↔
      signature.load p xsecureRsaTPadLength = xsecureRsaGetTPadding psVersion := by
    rw [Mem.Holds, length_tPadding]
  have hh (p : Nat) : signature.Holds p hash.toList ↔ signature.load p 48 = hash.toList := by
    rw [Mem.Holds, Vector.length_toList]
  rw [hpad, ht, hh]
  constructor
  · rintro ⟨_, _, ⟨h0, rfl⟩, _, ⟨h1, rfl⟩, _, ⟨h2, rfl⟩, _, ⟨h3, rfl⟩, _, ⟨h4, rfl⟩, h5, -⟩
    exact ⟨h0, h1, h2, h3, h4, h5⟩
  · rintro ⟨h0, h1, h2, h3, h4, h5⟩
    exact ⟨_, _, ⟨h0, rfl⟩, _, ⟨h1, rfl⟩, _, ⟨h2, rfl⟩, _, ⟨h3, rfl⟩, _, ⟨h4, rfl⟩, h5, rfl⟩

/-- The tests of a hash of 48 bytes pass for the encoding alone. -/
theorem signVerification_sha3 : xsecureRsaSignVerification psVersion signature hash xsecureHashTypeSha3 = xfsblSuccess ↔
    signature.load 0 512 = encoding psVersion hash := by
  have hholds : signature.Holds 0 (encoding psVersion hash) ↔ signature.load 0 512 = encoding psVersion hash := by
    unfold Mem.Holds
    rw [length_encoding]
  have htest : (if (testSignature (xsecureRsaGetTPadding psVersion) signature hash 442 48).isSome then xfsblSuccess
      else xstFailure) = xfsblSuccess ↔
      (testSignature (xsecureRsaGetTPadding psVersion) signature hash 442 48).isSome = true := by
    split
    next h => exact iff_of_true rfl h
    next h => exact iff_of_false (by decide) h
  unfold xsecureRsaSignVerification
  rw [if_neg (not_not_intro rfl), ← hholds, ← testSignature_iff]
  exact htest

/-- **What is accepted is the encoding**, of a hash of 48 bytes. -/
theorem rsaSignVerification_iff (hashLen : UInt32) :
    xsecureRsaSignVerification psVersion signature hash hashLen = xfsblSuccess ↔
      hashLen = xsecureHashTypeSha3 ∧ signature.load 0 512 = encoding psVersion hash := by
  by_cases hlen : hashLen = xsecureHashTypeSha3
  · subst hlen
    exact signVerification_sha3.trans (and_iff_right rfl).symm
  · unfold xsecureRsaSignVerification
    rw [if_pos hlen]
    exact iff_of_false (by decide) fun h => hlen h.1

end Encoding

/-! ## One signature -/

def xfsblErrorRsaInitialize : UInt32 := 0x59

/-- The buffers of a key: modulus, extension and exponent lie one behind the other. -/
def keyAt (mem : Mem) (a : Nat) : XSecureRsa where
  mod i := mem (a + i)
  modExt := some fun i => mem (a + 512 + i)
  modExpo i := mem (a + 1024 + i)
  sizeInWords := 128

section Verify

variable (hw : RsaHw)

/-- The end of `XFsbl_SpkVer`, `XFsbl_PartitionSignVer` and `XFsbl_BhAuthentication`: the signature at `a`
opens, with the key at `k`, to the encoding of a hash. -/
def verifySignature (decryptError signatureError : UInt32) (key : Mem) (k : Nat) (mem : Mem) (a : Nat)
    (hash : Digest) (hashLen : UInt32) : RsaM UInt32 := do
  let r ← xsecureRsaInitialize hw (fun i => key (k + i)) (fun i => key (k + 512 + i)) fun i => key (k + 1024 + i)
  if r.1 ≠ xfsblSuccess then pure xfsblErrorRsaInitialize
  else do
    let d ← xsecureRsaPublicEncrypt hw r.2 (fun i => mem (a + i)) xsecureRsa4096KeySize fun _ => 0
    if d.1 ≠ xfsblSuccess then pure decryptError
    else if xsecureRsaSignVerification hw.psVersion d.2 hash hashLen ≠ xfsblSuccess then pure signatureError
    else pure xfsblSuccess

/-- Loaded with the key at `k` and the signature at `a`, the core gives the encoding of `hash`. -/
def RsaHw.Opens (key : Mem) (k : Nat) (mem : Mem) (a : Nat) (hash : Digest) (core : RsaCore) : Prop :=
  let start := startCore (keyAt key k) (fun i => mem (a + i)) 0xC0 core
  { start with ram := hw.operate start }.result 128 = ofBE (encoding hw.psVersion hash)

/-- The key at `k` is one the core can use: an odd modulus, and its extension behind it. -/
structure KeyOk (ext : Nat → Nat) (key : Mem) (k : Nat) : Prop where
  odd : ofBE (key.load k 512) % 2 = 1
  ext : ofBE (key.load (k + 512) 512) = ext (ofBE (key.load k 512))

/-- PKCS #1: the signature at `a` to the exponent of the key, which is not zero, is the encoding of `hash`. -/
structure Signed (key : Mem) (k : Nat) (mem : Mem) (a : Nat) (hash : Digest) : Prop where
  exponent : ofBE (key.load (k + 1024) 4) ≠ 0
  power : ofBE (mem.load a 512) ^ ofBE (key.load (k + 1024) 4) % ofBE (key.load k 512) =
    ofBE (encoding hw.psVersion hash)

end Verify

theorem keyOk_iff {ext : Nat → Nat} {key : Mem} {k : Nat} : KeyOk ext key k ↔
    ofBE (key.load k 512) % 2 = 1 ∧ ofBE (key.load (k + 512) 512) = ext (ofBE (key.load k 512)) := by
  constructor
  · intro h
    exact ⟨h.odd, h.ext⟩
  · rintro ⟨hodd, hext⟩
    exact ⟨hodd, hext⟩

theorem signed_iff {hw : RsaHw} {key mem : Mem} {k a : Nat} {hash : Digest} : Signed hw key k mem a hash ↔
    ofBE (key.load (k + 1024) 4) ≠ 0 ∧
      ofBE (mem.load a 512) ^ ofBE (key.load (k + 1024) 4) % ofBE (key.load k 512) =
        ofBE (encoding hw.psVersion hash) := by
  constructor
  · intro h
    exact ⟨h.exponent, h.power⟩
  · rintro ⟨hexponent, hpower⟩
    exact ⟨hexponent, hpower⟩

section Verified

variable {hw : RsaHw} {key mem : Mem} {k a : Nat} {hash : Digest} {s : RsaState} {decryptError signatureError : UInt32}

/-- A signature is good for one hash. -/
theorem RsaHw.Opens.hash_unique {hash' : Digest} {core : RsaCore} (h : hw.Opens key k mem a hash core)
    (h' : hw.Opens key k mem a hash' core) : hash = hash' := by
  have henc : encoding hw.psVersion hash = encoding hw.psVersion hash' :=
    ofBE_inj (length_encoding.trans length_encoding.symm) (h.symm.trans h')
  unfold encoding at henc
  have htail := List.append_cancel_left (List.cons.inj (List.cons.inj henc).2).2
  exact Vector.toList_inj.1 (List.append_cancel_left (List.cons.inj htail).2)

/-- The check returns, and what it accepts. -/
theorem verifySignature_run (hd : decryptError ≠ xfsblSuccess) (hs : signatureError ≠ xfsblSuccess) (s : RsaState) :
    ∃ status t,
      verifySignature hw decryptError signatureError key k mem a hash xsecureHashTypeSha3 s = .ok status t ∧
      (status = xfsblSuccess ↔ hw.cryptoCheck s.tick = xfsblSuccess ∧ ofBE (key.load (k + 1024) 4) ≠ 0 ∧
        hw.Done (s.tick + 1) xsecureTimeoutMax ∧ hw.Opens key k mem a hash s.core) := by
  have hinit : xfsblErrorRsaInitialize ≠ xfsblSuccess := by decide
  have hexpo : ofBE (Mem.load (fun i => key (k + 1024 + i)) 0 4) = ofBE (key.load (k + 1024) 4) := by
    rw [Mem.load_shift]
  obtain ⟨status, out, t, hrun, hiff, hout⟩ := @rsaPublicEncrypt_run hw 128 0xC0 (fun i => key (k + i))
    (fun i => key (k + 512 + i)) (fun i => key (k + 1024 + i)) (fun i => mem (a + i)) rfl 128 (fun _ => 0)
    { s with tick := s.tick + 1 }
  rw [hexpo] at hiff
  show ∃ status t, (if hw.cryptoCheck s.tick ≠ xfsblSuccess then pure xfsblErrorRsaInitialize else do
    let d ← xsecureRsaPublicEncrypt hw ⟨fun i => key (k + i), some fun i => key (k + 512 + i),
      fun i => key (k + 1024 + i), 128⟩ (fun i => mem (a + i)) (4 * 128) fun _ => 0
    if d.1 ≠ xfsblSuccess then pure decryptError
    else if xsecureRsaSignVerification hw.psVersion d.2 hash xsecureHashTypeSha3 ≠ xfsblSuccess then
      pure signatureError
    else pure xfsblSuccess : RsaM UInt32) { s with tick := s.tick + 1 } = _ ∧ _
  by_cases hcheck : hw.cryptoCheck s.tick = xfsblSuccess
  · rw [if_neg (not_not_intro hcheck), bind_apply, hrun]
    by_cases hsucc : status = xfsblSuccess
    · obtain ⟨he, hdone⟩ := hiff.1 hsucc
      have hopens : hw.Opens key k mem a hash s.core ↔
          xsecureRsaSignVerification hw.psVersion out hash xsecureHashTypeSha3 = xfsblSuccess := by
        rw [signVerification_sha3]
        exact ⟨fun ho => ofBE_inj (by rw [Mem.length_load, length_encoding]) ((hout hsucc).trans ho),
          fun ho => (hout hsucc).symm.trans (congrArg ofBE ho)⟩
      dsimp only
      rw [if_neg (not_not_intro hsucc)]
      by_cases hsign : xsecureRsaSignVerification hw.psVersion out hash xsecureHashTypeSha3 = xfsblSuccess
      · rw [if_neg (not_not_intro hsign)]
        exact ⟨_, _, rfl, iff_of_true rfl ⟨hcheck, he, hdone, hopens.2 hsign⟩⟩
      · rw [if_pos hsign]
        exact ⟨_, _, rfl, iff_of_false hs fun h => hsign (hopens.1 h.2.2.2)⟩
    · dsimp only
      rw [if_pos hsucc]
      exact ⟨_, _, rfl, iff_of_false hd fun h => hsucc (hiff.2 ⟨h.2.1, h.2.2.1⟩)⟩
  · rw [if_pos hcheck]
    exact ⟨_, _, rfl, iff_of_false hinit fun h => hcheck h.1⟩

variable {ext : Nat → Nat}

/-- With a core that exponentiates, what the signature opens to is its power. -/
theorem opens_iff (h : hw.Exponentiates ext) (hkey : KeyOk ext key k) (core : RsaCore) :
    hw.Opens key k mem a hash core ↔
      ofBE (mem.load a 512) ^ ofBE (key.load (k + 1024) 4) % ofBE (key.load k 512) =
        ofBE (encoding hw.psVersion hash) := by
  have hshift (m : Mem) (p : Nat) : Mem.load (fun i => m (p + i)) 0 (4 * 128) = m.load p 512 :=
    m.load_shift p 0 512
  have hpower := @result_startCore hw 128 0xC0 ext (fun i => key (k + i)) (fun i => key (k + 512 + i))
    (fun i => key (k + 1024 + i)) (fun i => mem (a + i)) core h rfl (by rw [hshift]; exact hkey.odd)
    (by rw [hshift, hshift]; exact hkey.ext)
  rw [hshift, hshift, Mem.load_shift, Nat.add_zero] at hpower
  rw [RsaHw.Opens]
  exact Eq.congr_left hpower

/-- **The check of a signature**, with a core that exponentiates and a key it can use: it returns, and accepts
if and only if the engine is there and done in time, and the signature is the one of PKCS #1. -/
theorem verifySignature_iff (h : hw.Exponentiates ext) (hkey : KeyOk ext key k) (hd : decryptError ≠ xfsblSuccess)
    (hs : signatureError ≠ xfsblSuccess) (s : RsaState) :
    ∃ status t,
      verifySignature hw decryptError signatureError key k mem a hash xsecureHashTypeSha3 s = .ok status t ∧
      (status = xfsblSuccess ↔ hw.cryptoCheck s.tick = xfsblSuccess ∧ hw.Done (s.tick + 1) xsecureTimeoutMax ∧
        Signed hw key k mem a hash) := by
  obtain ⟨status, t, hrun, hiff⟩ := @verifySignature_run hw key mem k a hash decryptError signatureError hd hs s
  refine ⟨status, t, hrun, hiff.trans ?_⟩
  rw [opens_iff h hkey]
  exact ⟨fun hr => ⟨hr.1, hr.2.2.1, hr.2.1, hr.2.2.2⟩, fun hr => ⟨hr.1, hr.2.2.exponent, hr.2.1, hr.2.2.power⟩⟩

/-- **A signature is good for one hash**: where the check has accepted it, it returns for any other hash, whatever
state the engine is in, and rejects the signature. -/
theorem verifySignature_other_hash {hash' : Digest} {t : RsaState} (h : hw.Exponentiates ext)
    (hkey : KeyOk ext key k) (hd : decryptError ≠ xfsblSuccess) (hs : signatureError ≠ xfsblSuccess)
    (hacc : verifySignature hw decryptError signatureError key k mem a hash xsecureHashTypeSha3 s = .ok xfsblSuccess t)
    (hne : hash' ≠ hash) (s' : RsaState) :
    ∃ status t',
      verifySignature hw decryptError signatureError key k mem a hash' xsecureHashTypeSha3 s' = .ok status t' ∧
      status ≠ xfsblSuccess := by
  obtain ⟨status, u, hrun, hiff⟩ := @verifySignature_run hw key mem k a hash decryptError signatureError hd hs s
  obtain ⟨status', t', hrun', hiff'⟩ := @verifySignature_run hw key mem k a hash' decryptError signatureError hd hs s'
  have hstatus : status = xfsblSuccess := by
    have heq := hrun.symm.trans hacc
    injection heq
  have hopens : hw.Opens key k mem a hash s'.core :=
    (opens_iff h hkey s'.core).2 ((opens_iff h hkey s.core).1 (hiff.1 hstatus).2.2.2)
  exact ⟨status', t', hrun', fun hsucc => hne ((hiff'.1 hsucc).2.2.2.hash_unique hopens)⟩

end Verified

/-! ### A signature -/

/-- The modulus `2 ^ 4096 - 1`, whose extension is one, and the exponent one. -/
def unitKey : Mem := fun i => if i < 512 then 0xFF else if i = 1023 ∨ i = 1027 then 1 else 0

theorem keyOk_unitKey : KeyOk squaredExt unitKey 0 := ⟨by decide +kernel, by decide +kernel⟩

/-- Its signature of a hash is the encoding. -/
theorem signed_unitKey {hw : RsaHw} {mem : Mem} {a : Nat} {hash : Digest}
    (h : mem.Holds a (encoding hw.psVersion hash)) : Signed hw unitKey 0 mem a hash := by
  have hexpo : ofBE (unitKey.load (0 + 1024) 4) = 1 := by decide +kernel
  have hmod : ofBE (unitKey.load 0 512) = 256 ^ 512 - 1 := by decide +kernel
  have hload : mem.load a 512 = encoding hw.psVersion hash :=
    (congrArg (mem.load a) length_encoding.symm).trans h
  refine ⟨by rw [hexpo]; decide, ?_⟩
  rw [hexpo, pow_one, hload, hmod]
  refine Nat.mod_eq_of_lt ?_
  have htail : ∃ tail, encoding hw.psVersion hash = 0 :: tail ∧ tail.length = 511 := ⟨_, rfl, by
    have hlen := @length_encoding hw.psVersion hash
    rw [encoding, List.length_cons] at hlen
    exact Nat.succ.inj hlen⟩
  obtain ⟨tail, henc, hlen⟩ := htail
  have hlt := ofBE_lt tail
  have hcons : ofBE (0 :: tail) = ofBE tail := by
    rw [show (0 : UInt8) :: tail = [0] ++ tail from rfl, ofBE_append]
    rfl
  rw [henc, hcons]
  rw [hlen] at hlt
  exact lt_of_lt_of_le hlt (by decide +kernel)

def sevens : Digest := Vector.replicate 48 7

def unitSignature : Mem := Mem.store (fun _ => 0) 0 (encoding 3 sevens)

/-- Its signature of a hash of sevens, for one of zeros. -/
theorem verifySignature_other_hash_unitKey :
    ∃ status t', verifySignature powerHw 0x31 0x32 unitKey 0 unitSignature 0 (Vector.replicate 48 0)
        xsecureHashTypeSha3 idleState = .ok status t' ∧ status ≠ xfsblSuccess := by
  have hd : (0x31 : UInt32) ≠ xfsblSuccess := by decide
  have hs : (0x32 : UInt32) ≠ xfsblSuccess := by decide
  have hsigned : Signed powerHw unitKey 0 unitSignature 0 sevens := signed_unitKey (Mem.holds_store ..)
  obtain ⟨status, t, hrun, hiff⟩ := verifySignature_iff (powerHw_exponentiates squaredExt) keyOk_unitKey hd hs idleState
  have hsucc : status = xfsblSuccess := by
    refine hiff.2 ⟨rfl, ⟨0, by decide, by decide, fun j hj => ?_⟩, hsigned⟩
    rw [Nat.le_zero.1 hj]
    decide
  exact verifySignature_other_hash (powerHw_exponentiates squaredExt) keyOk_unitKey hd hs (hsucc ▸ hrun)
    (by decide) idleState

end MeasuredBoot.Rsa
