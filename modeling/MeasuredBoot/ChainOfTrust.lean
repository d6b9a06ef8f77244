import MeasuredBoot.Authentication
import MeasuredBoot.Lib.Run

/-!
# The chain of trust

`accepted_certified`: in any run, in any order of calls and whatever fails, what is accepted hangs on a PPK that the
eFUSEs name and do not revoke. `authenticateAll_iff`: with engines that run, a boot is accepted if and only if it
hangs on one. No caller looks at the end of a hash: one that does not end in time stands for zeros, and
`stalled_rejects` says where that is safe.
-/

namespace MeasuredBoot.Auth

open Prog
open MeasuredBoot.Csu (ShaHw ShaState ShaM Sha3PadType xsecureSha3PadSelection onSha3 xfsblShaStart xfsblShaUpdate
  xfsblShaFinish xfsblHashTypeSha3 initializeAndStart updateDropped finishDropped Session Running)
open MeasuredBoot.Rsa (RsaHw RsaState RsaM verifySignature KeyOk Signed xsecureHashTypeSha3)

/-! ## What is accepted -/

section Certificates

variable (hw : AuthHw) (ext : Nat → Nat)

/-- The key signs a hash of the message; of a key that the core cannot use nothing is said. -/
structure SignedBy (p : Sha3PadType) (message : List UInt8) (key : Mem) (k : Nat) (mem : Mem) (a : Nat) : Prop where
  exponent : ofBE (key.load (k + 1024) 4) ≠ 0
  signed : ∃ hash, hw.HashOf p message hash ∧ (KeyOk ext key k → Signed hw.rsa key k mem a hash)

/-- A PPK that the eFUSEs name, and do not revoke. -/
def PpkTrusted (ppk : List UInt8) : Prop :=
  ∃ select, hw.efuse efuseSecCtrl &&& ppkRvkMask select = 0 ∧ hw.HashOf .keccak ppk (xfsblReadPpkHash hw select)

/-- The PPK signs the SPK of the certificate, and the eFUSEs allow it. -/
structure SpkTrusted (ppk mem : Mem) (acOffset : Nat) : Prop where
  signed : ∃ p, SpkPad (spkIdFuseSel mem acOffset) p ∧
    SignedBy hw ext p (mem.load acOffset 8 ++ mem.load (acOffset + xfsblAuthCertSpkOffset) xfsblSpkSize.toNat) ppk 0 mem
      (acOffset + xfsblAuthCertSpkSigOffset)
  allowed : hw.efuse efuseSecCtrl &&& efuseSecCtrlRsaEnMask ≠ 0 →
    SpkAllowed hw (spkIdFuseSel mem acOffset) (acWord mem acOffset 1)

end Certificates

section Accepted

variable {hw : AuthHw} {ext : Nat → Nat} {mem : Mem} {s t : AuthState} {status decryptError signatureError : UInt32}
  {key : Mem} {k a acOffset : Nat} {hash : Digest} {p : Sha3PadType} {message : List UInt8}

theorem onSha_ok {α : Type} {c : ShaM α} {r : α} : onSha c s = .ok r t ↔
    ∃ v, c s.sha = .ok r v ∧ { s with sha := v } = t := zoom_ok

theorem onRsa_ok {α : Type} {c : RsaM α} {r : α} : onRsa c s = .ok r t ↔
    ∃ v, c s.rsa = .ok r v ∧ { s with rsa := v } = t := zoom_ok

theorem verify_ok (hexp : hw.rsa.Exponentiates ext) (hd : decryptError ≠ xfsblSuccess)
    (hs : signatureError ≠ xfsblSuccess) (hhash : hw.HashOf p message hash)
    (h : onRsa (verifySignature hw.rsa decryptError signatureError key k mem a hash xsecureHashTypeSha3) s =
      .ok status t) :
    t.efusePpkKey = s.efusePpkKey ∧ (status = xfsblSuccess → SignedBy hw ext p message key k mem a) := by
  obtain ⟨v, hrun, rfl⟩ := onRsa_ok.1 h
  obtain ⟨status', v', hrun', hiff⟩ := @Rsa.verifySignature_run hw.rsa key mem k a hash decryptError signatureError
    hd hs s.rsa
  obtain ⟨rfl, -⟩ := EStateM.Result.ok.inj (hrun'.symm.trans hrun)
  refine ⟨rfl, fun hsucc => ?_⟩
  obtain ⟨-, hexpo, -, hopens⟩ := hiff.1 hsucc
  exact ⟨hexpo, hash, hhash, fun hkey => ⟨hexpo, (Rsa.opens_iff hexp hkey _).1 hopens⟩⟩

theorem spkVer_ok (hexp : hw.rsa.Exponentiates ext)
    (h : xfsblSpkVer hw mem acOffset xfsblHashTypeSha3 s = .ok status t) :
    t.efusePpkKey = s.efusePpkKey ∧ (status = xfsblSuccess → SpkTrusted hw ext s.efusePpkKey mem acOffset) := by
  obtain ⟨_, s1, hget, h⟩ := bind_ok.1 h
  obtain ⟨rfl, rfl⟩ := get_ok.1 hget
  obtain ⟨⟨status1, hash⟩, s2, hsha, h⟩ := bind_ok.1 h
  obtain ⟨v, hsha', rfl⟩ := onSha_ok.1 hsha
  dsimp only at h
  by_cases hsucc : status1 = xfsblSuccess
  · subst hsucc
    rw [if_neg (not_not_intro rfl)] at h
    have hlen : (mem.load acOffset (8 : UInt32).toNat ++
        mem.load (acOffset + xfsblAuthCertSpkOffset) xfsblSpkSize.toNat).length < 2 ^ 32 := by
      rw [List.length_append, Mem.length_load, Mem.length_load]
      decide
    rw [← piecesBytes_two] at hlen
    obtain ⟨p, hp, hhash⟩ := hashPieces_ok (chooses_spk _) hlen hsha'
    rw [piecesBytes_two] at hhash
    obtain ⟨status2, s3, hverify, h⟩ := bind_ok.1 h
    obtain ⟨hkey, hsigned⟩ := verify_ok hexp (by decide) (by decide) hhash hverify
    by_cases hsucc2 : status2 = xfsblSuccess
    · rw [if_neg (not_not_intro hsucc2)] at h
      obtain ⟨hstatus, rfl⟩ := pure_ok.1 h
      refine ⟨hkey, fun hs => ⟨⟨p, hp, hsigned hsucc2⟩, fun hen => ?_⟩⟩
      exact (spkRevocation_iff hen (hp.imp And.left id)).1 (hstatus.trans hs)
    · rw [if_pos hsucc2] at h
      obtain ⟨hstatus, rfl⟩ := pure_ok.1 h
      exact ⟨hkey, fun hs => absurd (hstatus.trans hs) hsucc2⟩
  · rw [if_pos hsucc] at h
    obtain ⟨hstatus, rfl⟩ := pure_ok.1 h
    exact ⟨rfl, fun hs => absurd (hstatus.trans hs) hsucc⟩

theorem partitionSignVer_ok {off : Nat} {len : UInt32} (hexp : hw.rsa.Exponentiates ext)
    (h : xfsblPartitionSignVer hw mem off len acOffset s = .ok status t) :
    t.efusePpkKey = s.efusePpkKey ∧ (status = xfsblSuccess → xfsblAuthCertMinSize ≤ len →
      ∃ p, SignedBy hw ext p (mem.load off (len - xfsblAuthCertMinSize).toNat ++ mem.load acOffset 0xCC0) mem
        (acOffset + xfsblAuthCertSpkOffset) mem (acOffset + xfsblAuthCertFsblSigOffset)) := by
  obtain ⟨⟨status1, hash⟩, s2, hsha, h⟩ := bind_ok.1 h
  obtain ⟨v, hsha', rfl⟩ := onSha_ok.1 hsha
  have hkeep : t.efusePpkKey = s.efusePpkKey := by
    obtain ⟨v', -, rfl⟩ := onRsa_ok.1 h
    rfl
  refine ⟨hkeep, fun hs hle => ?_⟩
  obtain rfl := hashPieces_pure hsha'
  have hlen : (mem.load off (len - xfsblAuthCertMinSize).toNat ++
      mem.load acOffset (xfsblAuthCertMinSize - xfsblFsblSigSize).toNat).length < 2 ^ 32 := by
    have hlt := len.toNat_lt
    have hmin : xfsblAuthCertMinSize.toNat = 0xEC0 := rfl
    have hrest : (xfsblAuthCertMinSize - xfsblFsblSigSize).toNat = 0xCC0 := rfl
    have hle' := UInt32.le_iff_toNat_le.mp hle
    rw [List.length_append, Mem.length_load, Mem.length_load, UInt32.toNat_sub_of_le _ _ hle]
    omega
  rw [← piecesBytes_two] at hlen
  obtain ⟨p, -, hhash⟩ := hashPieces_ok chooses_pure hlen hsha'
  rw [piecesBytes_two] at hhash
  exact ⟨p, (verify_ok hexp (by decide) (by decide) hhash h).2 hs⟩

theorem ppkVer_ok (h : xfsblPpkVer hw mem acOffset xfsblHashTypeSha3 s = .ok status t) :
    t.efusePpkKey = s.efusePpkKey ∧ (status = xfsblSuccess →
      PpkTrusted hw (mem.load (acOffset + xfsblAuthCertPpkOffset) xfsblPpkSize.toNat)) := by
  unfold xfsblPpkVer at h
  by_cases hrvk : hw.efuse efuseSecCtrl &&& ppkRvkMask (ppkSelect mem acOffset) = 0
  · dsimp only at h
    rw [if_neg (not_not_intro hrvk)] at h
    obtain ⟨⟨status1, hash⟩, s2, hsha, h⟩ := bind_ok.1 h
    obtain ⟨v, hsha', rfl⟩ := onSha_ok.1 hsha
    dsimp only at h
    by_cases hsucc : status1 = xfsblSuccess
    · subst hsucc
      rw [if_neg (not_not_intro rfl)] at h
      have hlen : (mem.load (acOffset + xfsblAuthCertPpkOffset) xfsblPpkSize.toNat).length < 2 ^ 32 := by
        rw [Mem.length_load]
        decide
      rw [← piecesBytes_one] at hlen
      obtain ⟨p, rfl, hhash⟩ := hashPieces_ok chooses_keccak hlen hsha'
      rw [piecesBytes_one] at hhash
      by_cases hcmp : xfsblCompareHashs hash (xfsblReadPpkHash hw (ppkSelect mem acOffset)) xfsblHashTypeSha3 =
          xfsblSuccess
      · rw [if_neg (not_not_intro hcmp)] at h
        obtain ⟨hstatus, rfl⟩ := pure_ok.1 h
        refine ⟨rfl, fun _ => ⟨_, hrvk, ?_⟩⟩
        rw [← compareHashs_iff.1 hcmp]
        exact hhash
      · rw [if_pos hcmp] at h
        obtain ⟨hstatus, rfl⟩ := pure_ok.1 h
        exact ⟨rfl, fun hs => absurd (hstatus.trans hs) (by decide)⟩
    · rw [if_pos hsucc] at h
      obtain ⟨hstatus, rfl⟩ := pure_ok.1 h
      exact ⟨rfl, fun hs => absurd (hstatus.trans hs) hsucc⟩
  · dsimp only at h
    rw [if_pos hrvk] at h
    obtain ⟨hstatus, rfl⟩ := pure_ok.1 h
    exact ⟨rfl, fun hs => absurd (hstatus.trans hs) (by decide)⟩

theorem authentication_ok {off : Nat} {len : UInt32} (hexp : hw.rsa.Exponentiates ext)
    (h : xfsblAuthentication hw mem off len acOffset s = .ok status t) :
    t.efusePpkKey = s.efusePpkKey ∧ (status = xfsblSuccess → SpkTrusted hw ext s.efusePpkKey mem acOffset ∧
      (xfsblAuthCertMinSize ≤ len →
        ∃ p, SignedBy hw ext p (mem.load off (len - xfsblAuthCertMinSize).toNat ++ mem.load acOffset 0xCC0) mem
          (acOffset + xfsblAuthCertSpkOffset) mem (acOffset + xfsblAuthCertFsblSigOffset))) := by
  obtain ⟨status1, s1, hspk, h⟩ := bind_ok.1 h
  obtain ⟨hkey, htrust⟩ := spkVer_ok hexp hspk
  by_cases hsucc : status1 = xfsblSuccess
  · rw [if_neg (not_not_intro hsucc)] at h
    obtain ⟨hkey', hsigned⟩ := partitionSignVer_ok hexp h
    exact ⟨hkey'.trans hkey, fun hs => ⟨htrust hsucc, hsigned hs⟩⟩
  · rw [if_pos hsucc] at h
    obtain ⟨hstatus, rfl⟩ := pure_ok.1 h
    exact ⟨hkey, fun hs => absurd (hstatus.trans hs) hsucc⟩

/-- The boot header, with the data of the PUF if there is. -/
def bhSize (bootHdrAttributes : UInt32) : UInt32 :=
  if bootHdrAttributes &&& xihBhImageAttrbPufBhMask ≠ 0 then xihBhMaxSize else xihBhMinSize

/-- `EfusePpkKey` holds the PPK of the certificate. -/
def HoldsPpk (key mem : Mem) (acOffset : Nat) : Prop :=
  key.load 0 xfsblPpkSize.toNat = mem.load (acOffset + xfsblAuthCertPpkOffset) xfsblPpkSize.toNat

/-- The PPK is kept only behind its check; whatever comes then, it stays. -/
theorem bhAuthentication_ok {attrs : UInt32} {data : Nat} (hexp : hw.rsa.Exponentiates ext)
    (h : xfsblBhAuthentication hw mem attrs data acOffset true s = .ok status t) :
    t.efusePpkKey = s.efusePpkKey ∧ status ≠ xfsblSuccess ∨
      HoldsPpk t.efusePpkKey mem acOffset ∧ PpkTrusted hw (t.efusePpkKey.load 0 xfsblPpkSize.toNat) ∧
      (status = xfsblSuccess → SpkTrusted hw ext t.efusePpkKey mem acOffset ∧
        SignedBy hw ext .keccak (mem.load data (bhSize attrs).toNat) mem (acOffset + xfsblAuthCertSpkOffset) mem
          (acOffset + xfsblAuthCertBhdrSigOffset)) := by
  obtain ⟨status1, s1, hppk, h⟩ := bind_ok.1 h
  rw [if_pos rfl] at hppk
  obtain ⟨hkey1, htrust⟩ := ppkVer_ok hppk
  by_cases hsucc1 : status1 = xfsblSuccess
  · rw [if_neg (not_not_intro hsucc1)] at h
    refine .inr ?_
    obtain ⟨_, s2, hmod, h⟩ := bind_ok.1 h
    obtain rfl := modify_ok.1 hmod
    obtain ⟨status3, s3, hspk, h⟩ := bind_ok.1 h
    obtain ⟨hkey3, hspk⟩ := spkVer_ok hexp hspk
    have hholds : HoldsPpk s3.efusePpkKey mem acOffset := by
      rw [hkey3, HoldsPpk]
      exact (Mem.load_fill (Nat.le_refl _)).trans (Mem.load_shift _ _ 0 _)
    have htrust3 : PpkTrusted hw (s3.efusePpkKey.load 0 xfsblPpkSize.toNat) := by
      rw [hholds]
      exact htrust hsucc1
    by_cases hsucc3 : status3 = xfsblSuccess
    · rw [if_neg (not_not_intro hsucc3)] at h
      obtain ⟨⟨status4, hash⟩, s4, hsha, h⟩ := bind_ok.1 h
      obtain ⟨v, hsha', rfl⟩ := onSha_ok.1 hsha
      dsimp only at h
      by_cases hsucc4 : status4 = xfsblSuccess
      · subst hsucc4
        rw [if_neg (not_not_intro rfl)] at h
        have hlen : (mem.load data (bhSize attrs).toNat).length < 2 ^ 32 := by
          rw [Mem.length_load]
          exact (bhSize attrs).toNat_lt
        rw [← piecesBytes_one] at hlen
        obtain ⟨p, rfl, hhash⟩ := hashPieces_ok chooses_keccak hlen hsha'
        rw [piecesBytes_one] at hhash
        obtain ⟨hkey4, hsigned⟩ := verify_ok hexp (by decide) (by decide) hhash h
        have hkey4' : t.efusePpkKey = s3.efusePpkKey := hkey4
        rw [hkey4']
        exact ⟨hholds, htrust3, fun hs => ⟨hkey3 ▸ hspk hsucc3, hsigned hs⟩⟩
      · rw [if_pos hsucc4] at h
        obtain ⟨hstatus, rfl⟩ := pure_ok.1 h
        exact ⟨hholds, htrust3, fun hs => absurd (hstatus.trans hs) hsucc4⟩
    · rw [if_pos hsucc3] at h
      obtain ⟨hstatus, rfl⟩ := pure_ok.1 h
      exact ⟨hholds, htrust3, fun hs => absurd (hstatus.trans hs) hsucc3⟩
  · rw [if_pos hsucc1] at h
    obtain ⟨hstatus, rfl⟩ := pure_ok.1 h
    exact .inl ⟨hkey1, fun hs => hsucc1 (hstatus.trans hs)⟩

end Accepted

/-! ## What is accepted by engines that run -/

/-- The RSA core works, and the SHA3 engine ends each hash with `done`. -/
structure AuthHw.Runs (hw : AuthHw) (done : UInt32) : Prop where
  sha : RunsTo hw.sha done
  cryptoCheck : ∀ n, hw.rsa.cryptoCheck n = xfsblSuccess
  rsa : ∀ n, hw.rsa.Done n Rsa.xsecureTimeoutMax

def spkPadType (sel : UInt8) : Sha3PadType := if sel = xfsblSpkidEfuse then .keccak else .nist

/-- The PPK at `k` signs the SPK, the head of the certificate with it, and the eFUSEs allow it. -/
structure SpkAuthentic (hw : AuthHw) (done : UInt32) (ppk : Mem) (k : Nat) (mem : Mem) (acOffset : Nat) : Prop where
  select : spkIdFuseSel mem acOffset = xfsblSpkidEfuse ∨ spkIdFuseSel mem acOffset = xfsblUserEfuse
  signed : Signed hw.rsa ppk k mem (acOffset + xfsblAuthCertSpkSigOffset)
    (hw.hashed done (spkPadType (spkIdFuseSel mem acOffset))
      (mem.load acOffset 8 ++ mem.load (acOffset + xfsblAuthCertSpkOffset) xfsblSpkSize.toNat))
  allowed : hw.efuse efuseSecCtrl &&& efuseSecCtrlRsaEnMask ≠ 0 →
    SpkAllowed hw (spkIdFuseSel mem acOffset) (acWord mem acOffset 1)

/-- The SPK signs the partition, the certificate with it up to its last signature. -/
def PartitionAuthentic (hw : AuthHw) (done : UInt32) (mem : Mem) (off : Nat) (len : UInt32) (acOffset : Nat) : Prop :=
  Signed hw.rsa mem (acOffset + xfsblAuthCertSpkOffset) mem (acOffset + xfsblAuthCertFsblSigOffset)
    (hw.hashed done .nist (mem.load off (len - xfsblAuthCertMinSize).toNat ++ mem.load acOffset 0xCC0))

/-- The hash of the PPK is in the eFUSEs, which do not revoke it. -/
structure PpkAuthentic (hw : AuthHw) (done : UInt32) (mem : Mem) (acOffset : Nat) : Prop where
  valid : hw.efuse efuseSecCtrl &&& ppkRvkMask (ppkSelect mem acOffset) = 0
  hash : hw.hashed done .keccak (mem.load (acOffset + xfsblAuthCertPpkOffset) xfsblPpkSize.toNat) =
    xfsblReadPpkHash hw (ppkSelect mem acOffset)

/-- The SPK signs the boot header. -/
def BhAuthentic (hw : AuthHw) (done : UInt32) (mem : Mem) (attrs : UInt32) (data acOffset : Nat) : Prop :=
  Signed hw.rsa mem (acOffset + xfsblAuthCertSpkOffset) mem (acOffset + xfsblAuthCertBhdrSigOffset)
    (hw.hashed done .keccak (mem.load data (bhSize attrs).toNat))

section Exact

variable {hw : AuthHw} {ext : Nat → Nat} {mem : Mem} {s : AuthState} {done decryptError signatureError : UInt32}
  {key : Mem} {k a acOffset : Nat} {hash : Digest}

/-- A run that returns, keeps the PPK, and succeeds if and only if `P`. -/
def Decides (c : AuthM UInt32) (s : AuthState) (P : Prop) : Prop :=
  ∃ status t, c s = .ok status t ∧ t.efusePpkKey = s.efusePpkKey ∧ (status = xfsblSuccess ↔ P)

theorem Decides.imp {c : AuthM UInt32} {P Q : Prop} (h : Decides c s P) (hiff : P ↔ Q) : Decides c s Q := by
  obtain ⟨status, t, hrun, hkey, hp⟩ := h
  exact ⟨status, t, hrun, hkey, hp.trans hiff⟩

theorem decides_pure (status : UInt32) (s : AuthState) : Decides (pure status) s (status = xfsblSuccess) :=
  ⟨status, s, rfl, rfl, Iff.rfl⟩

theorem decides_get {f : AuthState → AuthM UInt32} {P : Prop} (h : Decides (f s) s P) : Decides (get >>= f) s P := h

/-- A check, and what comes behind it. -/
theorem decides_then {c d : AuthM UInt32} {P Q : Prop} (hc : Decides c s P)
    (hd : ∀ t, t.efusePpkKey = s.efusePpkKey → Decides d t Q) :
    Decides (do let status ← c; if status ≠ xfsblSuccess then pure status else d) s (P ∧ Q) := by
  obtain ⟨status, t, hrun, hkey, hp⟩ := hc
  by_cases hs : status = xfsblSuccess
  · obtain ⟨status', t', hrun', hkey', hq⟩ := hd t hkey
    refine ⟨status', t', bind_ok.2 ⟨status, t, hrun, ?_⟩, hkey'.trans hkey,
      hq.trans (and_iff_right (hp.1 hs)).symm⟩
    rwa [if_neg (not_not_intro hs)]
  · refine ⟨status, t, bind_ok.2 ⟨status, t, hrun, ?_⟩, hkey, iff_of_false hs fun h => hs (hp.2 h.1)⟩
    rw [if_pos hs]
    rfl

variable {padSelect : ShaM UInt32} {pieces : List (Nat × UInt32)} {padType : Sha3PadType}

/-- A hash, and what is done with it. -/
theorem decides_hash {f : Digest → AuthM UInt32} {P : Prop} (hsha : RunsTo hw.sha done)
    (hlen : (piecesBytes mem pieces).length < 2 ^ 32)
    (hpad : ∀ s, Begun s .nist [] → ∃ t, padSelect s = .ok xfsblSuccess t ∧ Begun t padType [])
    (h : ∀ t, t.efusePpkKey = s.efusePpkKey → Decides (f (hw.hashed done padType (piecesBytes mem pieces))) t P) :
    Decides (do
      let r ← onSha (hashPieces hw mem padSelect pieces xfsblHashTypeSha3)
      if r.1 ≠ xfsblSuccess then pure r.1 else f r.2) s P := by
  obtain ⟨v, hrun⟩ := hashPieces_run hsha hlen hpad s.sha
  obtain ⟨status, t, hrest, hkey, hp⟩ := h { s with sha := v } rfl
  refine ⟨status, t, bind_ok.2 ⟨_, _, onSha_ok.2 ⟨v, hrun, rfl⟩, ?_⟩, hkey, hp⟩
  rw [if_neg (not_not_intro rfl)]
  exact hrest

theorem decides_verify (hruns : hw.Runs done) (hexp : hw.rsa.Exponentiates ext) (hkey : KeyOk ext key k)
    (hd : decryptError ≠ xfsblSuccess) (hs : signatureError ≠ xfsblSuccess) (s : AuthState) :
    Decides (onRsa (verifySignature hw.rsa decryptError signatureError key k mem a hash xsecureHashTypeSha3)) s
      (Signed hw.rsa key k mem a hash) := by
  obtain ⟨status, v, hrun, hiff⟩ := @Rsa.verifySignature_iff hw.rsa key mem k a hash decryptError signatureError ext
    hexp hkey hd hs s.rsa
  refine ⟨status, _, onRsa_ok.2 ⟨v, hrun, rfl⟩, rfl, hiff.trans ?_⟩
  rw [and_iff_right (hruns.cryptoCheck _), and_iff_right (hruns.rsa _)]

theorem padSelect_spk {sel : UInt8} (hsel : sel = xfsblSpkidEfuse ∨ sel = xfsblUserEfuse) (s : ShaState)
    (hs : Begun s .nist []) : ∃ t, spkPadSelect sel s = .ok xfsblSuccess t ∧ Begun t (spkPadType sel) [] := by
  have hne : xfsblUserEfuse ≠ xfsblSpkidEfuse := by decide
  unfold spkPadSelect spkPadType
  rcases hsel with rfl | rfl
  · rw [if_pos rfl, if_pos rfl]
    exact padSelect_run hs .keccak
  · rw [if_neg hne, if_neg (not_not_intro rfl), if_neg hne]
    exact ⟨s, rfl, hs⟩

/-- **The SPK**: it is accepted if and only if the stored PPK signs it, and the eFUSEs allow it. -/
theorem spkVer_iff (hruns : hw.Runs done) (hexp : hw.rsa.Exponentiates ext) (hkey : KeyOk ext s.efusePpkKey 0) :
    Decides (xfsblSpkVer hw mem acOffset xfsblHashTypeSha3) s (SpkAuthentic hw done s.efusePpkKey 0 mem acOffset) := by
  refine decides_get ?_
  by_cases hsel : spkIdFuseSel mem acOffset = xfsblSpkidEfuse ∨ spkIdFuseSel mem acOffset = xfsblUserEfuse
  · have hlen : (piecesBytes mem [(acOffset, 8), (acOffset + xfsblAuthCertSpkOffset, xfsblSpkSize)]).length <
        2 ^ 32 := by
      rw [piecesBytes_two, List.length_append, Mem.length_load, Mem.length_load]
      decide
    refine decides_hash (f := fun hash => do
      let status ← onRsa (verifySignature hw.rsa xfsblErrorSpkRsaDecrypt xfsblErrorSpkSignature s.efusePpkKey 0 mem
        (acOffset + xfsblAuthCertSpkSigOffset) hash xfsblHashTypeSha3)
      if status ≠ xfsblSuccess then pure status
      else pure (spkRevocation hw (spkIdFuseSel mem acOffset) (acWord mem acOffset 1)))
      hruns.sha hlen (padSelect_spk hsel) fun t ht => ?_
    rw [piecesBytes_two]
    refine (decides_then (decides_verify hruns hexp hkey (by decide) (by decide) t)
      fun t' _ => decides_pure _ t').imp ⟨fun h => ⟨hsel, h.1, fun hen => ?_⟩, fun h => ⟨h.signed, ?_⟩⟩
    · exact (spkRevocation_iff hen hsel).1 h.2
    · by_cases hen : hw.efuse efuseSecCtrl &&& efuseSecCtrlRsaEnMask = 0
      · rw [spkRevocation, if_neg (not_not_intro hen)]
      · exact (spkRevocation_iff hen hsel).2 (h.allowed hen)
  · obtain ⟨v, hstart⟩ := hruns.sha.works.start s.sha
    have hselect : spkPadSelect (spkIdFuseSel mem acOffset) v = .ok xfsblErrorInvalidEfuseSelect v := by
      rw [not_or] at hsel
      rw [spkPadSelect, if_neg hsel.1, if_pos hsel.2]
      rfl
    have hrun : hashPieces hw mem (spkPadSelect (spkIdFuseSel mem acOffset))
        [(acOffset, 8), (acOffset + xfsblAuthCertSpkOffset, xfsblSpkSize)] xfsblHashTypeSha3 s.sha =
        .ok (xfsblErrorInvalidEfuseSelect, Vector.replicate 48 0) v :=
      bind_ok.2 ⟨(), v, hstart, bind_ok.2 ⟨_, v, hselect, rfl⟩⟩
    exact ⟨xfsblErrorInvalidEfuseSelect, _, bind_ok.2 ⟨_, _, onSha_ok.2 ⟨v, hrun, rfl⟩, rfl⟩, rfl,
      iff_of_false (by decide) fun h => hsel h.select⟩

theorem partitionSignVer_iff {off : Nat} {len : UInt32} (hruns : hw.Runs done) (hexp : hw.rsa.Exponentiates ext)
    (hspk : KeyOk ext mem (acOffset + xfsblAuthCertSpkOffset)) (hlen : xfsblAuthCertMinSize ≤ len) (s : AuthState) :
    Decides (xfsblPartitionSignVer hw mem off len acOffset) s (PartitionAuthentic hw done mem off len acOffset) := by
  have hbytes : (piecesBytes mem [(off, len - xfsblAuthCertMinSize),
      (acOffset, xfsblAuthCertMinSize - xfsblFsblSigSize)]).length < 2 ^ 32 := by
    have hlt := len.toNat_lt
    have hmin : xfsblAuthCertMinSize.toNat = 0xEC0 := rfl
    have hrest : (xfsblAuthCertMinSize - xfsblFsblSigSize).toNat = 0xCC0 := rfl
    have hle := UInt32.le_iff_toNat_le.mp hlen
    rw [piecesBytes_two, List.length_append, Mem.length_load, Mem.length_load, UInt32.toNat_sub_of_le _ _ hlen]
    omega
  obtain ⟨v, hrun⟩ := hashPieces_run hruns.sha hbytes (fun s hs => ⟨s, rfl, hs⟩) s.sha
  rw [piecesBytes_two] at hrun
  obtain ⟨status, t, hrest, hkey, hp⟩ := decides_verify hruns hexp hspk (by decide : xfsblErrorPartRsaDecrypt ≠ _)
    (by decide : xfsblErrorPartSignature ≠ _) { s with sha := v }
  exact ⟨status, t, bind_ok.2 ⟨_, _, onSha_ok.2 ⟨v, hrun, rfl⟩, hrest⟩, hkey, hp⟩

/-- **A partition**: with a PPK and an SPK that the core can use, it is accepted if and only if the stored PPK signs the
SPK, the eFUSEs allow it, and it signs the partition. -/
theorem authentication_iff {off : Nat} {len : UInt32} (hruns : hw.Runs done) (hexp : hw.rsa.Exponentiates ext)
    (hppk : KeyOk ext s.efusePpkKey 0) (hspk : KeyOk ext mem (acOffset + xfsblAuthCertSpkOffset))
    (hlen : xfsblAuthCertMinSize ≤ len) :
    Decides (xfsblAuthentication hw mem off len acOffset) s
      (SpkAuthentic hw done s.efusePpkKey 0 mem acOffset ∧ PartitionAuthentic hw done mem off len acOffset) :=
  decides_then (spkVer_iff hruns hexp hppk) fun t _ => partitionSignVer_iff hruns hexp hspk hlen t

theorem ppkVer_iff (hsha : RunsTo hw.sha done) (s : AuthState) :
    Decides (xfsblPpkVer hw mem acOffset xfsblHashTypeSha3) s (PpkAuthentic hw done mem acOffset) := by
  by_cases hrvk : hw.efuse efuseSecCtrl &&& ppkRvkMask (ppkSelect mem acOffset) = 0
  · have hlen : (piecesBytes mem [(acOffset + xfsblAuthCertPpkOffset, xfsblPpkSize)]).length < 2 ^ 32 := by
      rw [piecesBytes_one, Mem.length_load]
      decide
    have hcmp (t : AuthState) (hash : Digest) :
        Decides (if xfsblCompareHashs hash (xfsblReadPpkHash hw (ppkSelect mem acOffset)) xfsblHashTypeSha3 ≠
          xfsblSuccess then pure xfsblErrorPpkVerification else pure xfsblSuccess) t
          (hash = xfsblReadPpkHash hw (ppkSelect mem acOffset)) := by
      by_cases hc : xfsblCompareHashs hash (xfsblReadPpkHash hw (ppkSelect mem acOffset)) xfsblHashTypeSha3 =
          xfsblSuccess
      · rw [if_neg (not_not_intro hc)]
        exact (decides_pure _ t).imp (iff_of_true rfl (compareHashs_iff.1 hc))
      · rw [if_pos hc]
        exact (decides_pure _ t).imp (iff_of_false (by decide) fun h => hc (compareHashs_iff.2 h))
    rw [xfsblPpkVer]
    dsimp only
    rw [if_neg (not_not_intro hrvk)]
    refine decides_hash (f := fun hash => if xfsblCompareHashs hash
      (xfsblReadPpkHash hw (ppkSelect mem acOffset)) xfsblHashTypeSha3 ≠ xfsblSuccess then
        pure xfsblErrorPpkVerification else pure xfsblSuccess)
      hsha hlen (fun s hs => padSelect_run hs .keccak) fun t _ => (hcmp t _).imp ?_
    rw [piecesBytes_one]
    exact ⟨fun h => ⟨hrvk, h⟩, fun h => h.hash⟩
  · rw [xfsblPpkVer]
    dsimp only
    rw [if_pos hrvk]
    exact (decides_pure _ s).imp (iff_of_false (by decide) fun h => hrvk h.valid)

theorem load_shifted {m m' : Mem} {b b' n : Nat} (h : ∀ i < n, m (b + i) = m' (b' + i)) : m.load b n = m'.load b' n := by
  rw [← Nat.add_zero b, ← Nat.add_zero b', ← Mem.load_shift, ← Mem.load_shift]
  exact Mem.load_congr fun x _ hx => h x (by omega)

section Shift

variable {key' : Mem} {k' : Nat} (h : ∀ i < 1088, key (k + i) = key' (k' + i))

include h

/-- A part of a key elsewhere, with the same bytes. -/
theorem load_key {d n : Nat} (hd : d + n ≤ 1088) : key.load (k + d) n = key'.load (k' + d) n := by
  refine load_shifted fun i hi => ?_
  rw [Nat.add_assoc, Nat.add_assoc]
  exact h (d + i) (by omega)

theorem keyOk_shift : KeyOk ext key k ↔ KeyOk ext key' k' := by
  have hmod : key.load k 512 = key'.load k' 512 := load_key h (d := 0) (by omega)
  have hmodExt : key.load (k + 512) 512 = key'.load (k' + 512) 512 := load_key h (by omega)
  simp only [Rsa.keyOk_iff, hmod, hmodExt]

theorem signed_shift : Signed hw.rsa key k mem a hash ↔ Signed hw.rsa key' k' mem a hash := by
  have hmod : key.load k 512 = key'.load k' 512 := load_key h (d := 0) (by omega)
  have hexpo : key.load (k + 1024) 4 = key'.load (k' + 1024) 4 := load_key h (by omega)
  simp only [Rsa.signed_iff, hmod, hexpo]

end Shift

/-- **The boot header**: it is accepted if and only if the PPK of the certificate is the one of the eFUSEs (where
`IsEfuseRsa` asks for it) and signs the SPK, the eFUSEs allow the SPK, and it signs the header. -/
theorem bhAuthentication_iff {attrs : UInt32} {data : Nat} {isEfuseRsa : Bool} (hruns : hw.Runs done)
    (hexp : hw.rsa.Exponentiates ext) (hppk : KeyOk ext mem (acOffset + xfsblAuthCertPpkOffset))
    (hspk : KeyOk ext mem (acOffset + xfsblAuthCertSpkOffset)) (s : AuthState) :
    ∃ status t, xfsblBhAuthentication hw mem attrs data acOffset isEfuseRsa s = .ok status t ∧
      (status = xfsblSuccess ↔ (isEfuseRsa = true → PpkAuthentic hw done mem acOffset) ∧
        SpkAuthentic hw done mem (acOffset + xfsblAuthCertPpkOffset) mem acOffset ∧
        BhAuthentic hw done mem attrs data acOffset) ∧
      (status = xfsblSuccess → HoldsPpk t.efusePpkKey mem acOffset) := by
  have hfirst : Decides (if isEfuseRsa then xfsblPpkVer hw mem acOffset xfsblHashTypeSha3 else pure xfsblSuccess) s
      (isEfuseRsa = true → PpkAuthentic hw done mem acOffset) := by
    cases isEfuseRsa with
    | true => exact (ppkVer_iff hruns.sha s).imp ⟨fun h _ => h, fun h => h rfl⟩
    | false => exact (decides_pure _ s).imp (iff_of_true rfl fun h => Bool.noConfusion h)
  obtain ⟨status1, s1, hrun1, -, hp1⟩ := hfirst
  by_cases hsucc : status1 = xfsblSuccess
  · obtain ⟨s2, hs2⟩ : ∃ s2 : AuthState, s2 = { s1 with
        efusePpkKey := s1.efusePpkKey.fill 0 xfsblPpkSize.toNat
          fun i => mem (acOffset + xfsblAuthCertPpkOffset + i) } := ⟨_, rfl⟩
    have hstored (i : Nat) (hi : i < 1088) : s2.efusePpkKey (0 + i) = mem (acOffset + xfsblAuthCertPpkOffset + i) := by
      have hsize : xfsblPpkSize.toNat = 1088 := rfl
      rw [hs2]
      show s1.efusePpkKey.fill 0 1088 (fun i => mem (acOffset + xfsblAuthCertPpkOffset + i)) (0 + i) = _
      rw [Mem.fill_apply, if_pos (by omega), Nat.zero_add, Nat.sub_zero]
    have hkey2 : KeyOk ext s2.efusePpkKey 0 := (keyOk_shift hstored).2 hppk
    have hspk2 : SpkAuthentic hw done s2.efusePpkKey 0 mem acOffset ↔
        SpkAuthentic hw done mem (acOffset + xfsblAuthCertPpkOffset) mem acOffset :=
      ⟨fun h => ⟨h.select, (signed_shift hstored).1 h.signed, h.allowed⟩,
        fun h => ⟨h.select, (signed_shift hstored).2 h.signed, h.allowed⟩⟩
    have hlen : (piecesBytes mem [(data, bhSize attrs)]).length < 2 ^ 32 := by
      rw [piecesBytes_one, Mem.length_load]
      exact (bhSize attrs).toNat_lt
    have hheader (t : AuthState) : Decides (do
        let r ← onSha (hashPieces hw mem (xfsblSha3PadSelect .keccak) [(data, bhSize attrs)] xfsblHashTypeSha3)
        if r.1 ≠ xfsblSuccess then pure r.1
        else onRsa (verifySignature hw.rsa xfsblErrorBhRsaDecrypt xfsblErrorBhSignature mem
          (acOffset + xfsblAuthCertSpkOffset) mem (acOffset + xfsblAuthCertBhdrSigOffset) r.2 xfsblHashTypeSha3)) t
        (BhAuthentic hw done mem attrs data acOffset) := by
      refine decides_hash (f := fun hash => onRsa (verifySignature hw.rsa xfsblErrorBhRsaDecrypt
        xfsblErrorBhSignature mem (acOffset + xfsblAuthCertSpkOffset) mem (acOffset + xfsblAuthCertBhdrSigOffset) hash
        xfsblHashTypeSha3)) hruns.sha hlen (fun s hs => padSelect_run hs .keccak) fun t _ => ?_
      rw [piecesBytes_one]
      exact decides_verify hruns hexp hspk (by decide) (by decide) t
    obtain ⟨status, t, hrun, hkey, hp⟩ := decides_then (s := s2) (spkVer_iff hruns hexp hkey2) fun t _ => hheader t
    refine ⟨status, t, bind_ok.2 ⟨status1, s1, hrun1, ?_⟩, hp.trans ?_, fun _ => ?_⟩
    · rw [if_neg (not_not_intro hsucc)]
      exact bind_ok.2 ⟨(), s2, by rw [hs2]; rfl, hrun⟩
    · rw [and_iff_right (hp1.1 hsucc), hspk2]
    · rw [HoldsPpk, hkey]
      exact load_shifted fun i hi => hstored i hi
  · refine ⟨status1, s1, bind_ok.2 ⟨status1, s1, hrun1, ?_⟩, iff_of_false hsucc fun h => hsucc (hp1.2 h.1),
      fun h => absurd h hsucc⟩
    rw [if_pos hsucc]
    rfl

theorem HoldsPpk.byte (h : HoldsPpk key mem acOffset) (i : Nat) (hi : i < 1088) :
    mem (acOffset + xfsblAuthCertPpkOffset + i) = key (0 + i) := by
  have hsize : xfsblPpkSize.toNat = 1088 := rfl
  have hshift : key.load 0 1088 = Mem.load (fun i => mem (acOffset + xfsblAuthCertPpkOffset + i)) 0 1088 := by
    rw [Mem.load_shift, Nat.add_zero, ← hsize]
    exact h
  have hbyte := Mem.load_inj hshift (x := i) (Nat.zero_le _) (by omega)
  rw [Nat.zero_add]
  exact hbyte.symm

theorem HoldsPpk.spkAuthentic {mem' : Mem} {acOffset' : Nat} (h : HoldsPpk key mem acOffset) :
    SpkAuthentic hw done key 0 mem' acOffset' ↔
      SpkAuthentic hw done mem (acOffset + xfsblAuthCertPpkOffset) mem' acOffset' :=
  ⟨fun hs => ⟨hs.select, (signed_shift h.byte).2 hs.signed, hs.allowed⟩,
    fun hs => ⟨hs.select, (signed_shift h.byte).1 hs.signed, hs.allowed⟩⟩

end Exact

/-! ### A certificate -/

theorem zero_aligned : 0 % 4 = 0 := rfl

/-- Engines that work, every hash made of sevens, as the one in the eFUSEs is; the RSA eFUSE is burnt. -/
def sevensHw : AuthHw where
  sha := {
    cryptoCheck := fun _ => xfsblSuccess
    sssSha := fun _ => xfsblSuccess
    dmaWaitForDone := fun _ => xfsblSuccess
    sha3WaitForDone := fun _ => xfsblSuccess
    keccak := fun _ => Rsa.sevens
    partialDataAddr := 0
    aligned := zero_aligned }
  rsa := Rsa.powerHw
  efuse a := if a = efuseSecCtrl then 0x800 else 0x07070707

theorem runs_sevensHw : sevensHw.Runs xfsblSuccess where
  sha := ⟨fun _ => rfl, fun _ => rfl, fun _ => rfl, fun _ => rfl⟩
  cryptoCheck _ := rfl
  rsa n := ⟨0, by decide, by show (1 : UInt32) &&& 1 = 1; decide, fun _ _ => by show (1 : UInt32) &&& 4 ≠ 4; decide⟩

/-- A certificate at 0 for `SPKID_EFUSE`, its PPK and SPK both the unit key. -/
def unitCertificate : Mem := fun i =>
  if i < 0x40 then [0x00, 0x00, 0x04, 0x00, 0x07, 0x07, 0x07, 0x07].getD i 0
  else if i < 0x480 then Rsa.unitKey (i - 0x40)
  else if i < 0x8C0 then Rsa.unitKey (i - 0x480)
  else (Rsa.encoding 3 Rsa.sevens).getD ((i - 0x8C0) % 512) 0

theorem unitCertificate_ppk (i : Nat) (hi : i < 1088) :
    Rsa.unitKey (0 + i) = unitCertificate (0 + xfsblAuthCertPpkOffset + i) := by
  unfold unitCertificate xfsblAuthCertPpkOffset
  rw [if_neg (by omega), if_pos (by omega)]
  exact congrArg Rsa.unitKey (by omega)

theorem unitCertificate_spk (i : Nat) (hi : i < 1088) :
    Rsa.unitKey (0 + i) = unitCertificate (0 + xfsblAuthCertSpkOffset + i) := by
  unfold unitCertificate xfsblAuthCertSpkOffset
  rw [if_neg (by omega), if_neg (by omega), if_pos (by omega)]
  exact congrArg Rsa.unitKey (by omega)

theorem unitCertificate_signatures {a : Nat} (ha : a = 0x8C0 ∨ a = 0xAC0 ∨ a = 0xCC0) :
    unitCertificate.Holds a (Rsa.encoding sevensHw.rsa.psVersion Rsa.sevens) := by
  show unitCertificate.load a (Rsa.encoding 3 Rsa.sevens).length = Rsa.encoding 3 Rsa.sevens
  rcases ha with rfl | rfl | rfl
  · decide +kernel
  · decide +kernel
  · decide +kernel

theorem spkAuthentic_unitCertificate :
    SpkAuthentic sevensHw xfsblSuccess unitCertificate (0 + xfsblAuthCertPpkOffset) unitCertificate 0 where
  select := .inl (by decide +kernel)
  signed := (signed_shift unitCertificate_ppk).1 (Rsa.signed_unitKey (unitCertificate_signatures (.inl rfl)))
  allowed _ := .inl ⟨by decide +kernel, by decide +kernel⟩

def idleAuth : AuthState where
  sha := { tick := 0, absorbed := [], ended := false, updates := [], secureSha3 := {
    sha3State := .uninitialized, sha3PadType := .nist, sha3Len := 0, partialLen := 0, isLastUpdate := false,
    partialData := fun _ => 0 } }
  rsa := Rsa.idleState
  efusePpkKey _ := 0

theorem signed_unitCertificate {a : Nat} (ha : a = 0x8C0 ∨ a = 0xAC0 ∨ a = 0xCC0) :
    Signed sevensHw.rsa unitCertificate (0 + xfsblAuthCertSpkOffset) unitCertificate a Rsa.sevens :=
  (signed_shift unitCertificate_spk).1 (Rsa.signed_unitKey (unitCertificate_signatures ha))

/-! ## A boot -/

/-- A call, in the memory of its time. -/
inductive AuthCall where
  | bhAuthentication (mem : Mem) (bootHdrAttributes : UInt32) (data acOffset : Nat)
  | authentication (mem : Mem) (partitionOffset : Nat) (partitionLen : UInt32) (acOffset : Nat)

/-- `IsEfuseRsa` is what `XFsbl_ReadImageHeader` passes. -/
def AuthCall.run (hw : AuthHw) : AuthCall → AuthM UInt32
  | .bhAuthentication mem attrs data acOffset =>
    xfsblBhAuthentication hw mem attrs data acOffset (hw.efuse efuseSecCtrl &&& efuseSecCtrlRsaEnMask != 0)
  | .authentication mem off len acOffset => xfsblAuthentication hw mem off len acOffset

/-- A call of `XFsbl_Authentication`. -/
structure Partition where
  mem : Mem
  off : Nat
  len : UInt32
  acOffset : Nat

/-- The boot header, and then each partition until one is refused. -/
def authenticateAll (hw : AuthHw) : List AuthCall → AuthM UInt32
  | [] => pure xfsblSuccess
  | call :: calls => do
    let status ← call.run hw
    if status ≠ xfsblSuccess then pure status else authenticateAll hw calls

def Partition.call (p : Partition) : AuthCall := .authentication p.mem p.off p.len p.acOffset

/-- The SPK of the partition is one that the core can use, and the certificate is a part of the partition. -/
structure Partition.WellFormed (ext : Nat → Nat) (p : Partition) : Prop where
  spk : KeyOk ext p.mem (p.acOffset + xfsblAuthCertSpkOffset)
  len : xfsblAuthCertMinSize ≤ p.len

section Boot

variable {hw : AuthHw} {ext : Nat → Nat} {mem : Mem} {acOffset data : Nat} {attrs done : UInt32}

theorem authenticateAll_partitions (hruns : hw.Runs done) (hexp : hw.rsa.Exponentiates ext)
    (hppk : KeyOk ext mem (acOffset + xfsblAuthCertPpkOffset)) (ps : List Partition)
    (hps : ∀ p ∈ ps, p.WellFormed ext) (s : AuthState) (hs : HoldsPpk s.efusePpkKey mem acOffset) :
    Decides (authenticateAll hw (ps.map Partition.call)) s
      (∀ p ∈ ps, SpkAuthentic hw done mem (acOffset + xfsblAuthCertPpkOffset) p.mem p.acOffset ∧
        PartitionAuthentic hw done p.mem p.off p.len p.acOffset) := by
  induction ps generalizing s with
  | nil => exact (decides_pure _ s).imp (iff_of_true rfl fun p hp => absurd hp List.not_mem_nil)
  | cons p ps ih =>
    have hp := hps p List.mem_cons_self
    have hfirst : Decides (p.call.run hw) s _ :=
      authentication_iff hruns hexp ((keyOk_shift hs.byte).1 hppk) hp.spk hp.len
    have hall := decides_then hfirst fun t ht =>
      ih (fun q hq => hps q (List.mem_cons_of_mem p hq)) t (by rwa [HoldsPpk, ht])
    refine hall.imp ?_
    rw [List.forall_mem_cons, hs.spkAuthentic]

/-- **A boot**: with the RSA eFUSE burnt, engines that work and keys they can use, the boot header and any number of
partitions are all accepted if and only if one unrevoked PPK, whose hash is in the eFUSEs, signs the SPK of each
certificate, the eFUSEs allow each SPK, and it signs the object of its certificate. -/
theorem authenticateAll_iff (hruns : hw.Runs done) (hexp : hw.rsa.Exponentiates ext)
    (hen : hw.efuse efuseSecCtrl &&& efuseSecCtrlRsaEnMask ≠ 0)
    (hppk : KeyOk ext mem (acOffset + xfsblAuthCertPpkOffset))
    (hspk : KeyOk ext mem (acOffset + xfsblAuthCertSpkOffset)) (ps : List Partition)
    (hps : ∀ p ∈ ps, p.WellFormed ext) (s : AuthState) :
    ∃ status t, authenticateAll hw (.bhAuthentication mem attrs data acOffset :: ps.map Partition.call) s =
        .ok status t ∧
      (status = xfsblSuccess ↔ PpkAuthentic hw done mem acOffset ∧
        SpkAuthentic hw done mem (acOffset + xfsblAuthCertPpkOffset) mem acOffset ∧ BhAuthentic hw done mem attrs data acOffset ∧
        ∀ p ∈ ps, SpkAuthentic hw done mem (acOffset + xfsblAuthCertPpkOffset) p.mem p.acOffset ∧
          PartitionAuthentic hw done p.mem p.off p.len p.acOffset) := by
  have htrue : (hw.efuse efuseSecCtrl &&& efuseSecCtrlRsaEnMask != 0) = true := bne_iff_ne.2 hen
  obtain ⟨status1, s1, hrun1, hp1, hholds⟩ := @bhAuthentication_iff hw ext mem done acOffset attrs data true hruns hexp
    hppk hspk s
  have hcall : AuthCall.run hw (.bhAuthentication mem attrs data acOffset) s = .ok status1 s1 := by
    rw [AuthCall.run, htrue]
    exact hrun1
  by_cases hsucc : status1 = xfsblSuccess
  · obtain ⟨status, t, hrun, -, hp⟩ := authenticateAll_partitions hruns hexp hppk ps hps s1 (hholds hsucc)
    refine ⟨status, t, bind_ok.2 ⟨status1, s1, hcall, ?_⟩, hp.trans ?_⟩
    · rwa [if_neg (not_not_intro hsucc)]
    · obtain ⟨hppk', hspk', hbh⟩ := hp1.1 hsucc
      exact ⟨fun h => ⟨hppk' rfl, hspk', hbh, h⟩, fun h => h.2.2.2⟩
  · refine ⟨status1, s1, bind_ok.2 ⟨status1, s1, hcall, ?_⟩, iff_of_false hsucc fun h => hsucc (hp1.2 ?_)⟩
    · rw [if_pos hsucc]
      rfl
    · exact ⟨fun _ => h.1, h.2.1, h.2.2.1⟩

end Boot

/-- A partition of no bytes but its certificate. -/
def unitPartition : Partition := ⟨unitCertificate, 0, xfsblAuthCertMinSize, 0⟩

theorem wellFormed_unitPartition : unitPartition.WellFormed Rsa.squaredExt where
  spk := (keyOk_shift unitCertificate_spk).1 Rsa.keyOk_unitKey
  len := by decide

theorem authenticateAll_iff_unitCertificate :
    ∃ status t, authenticateAll sevensHw (.bhAuthentication unitCertificate 0 0 0 ::
      [unitPartition, unitPartition].map Partition.call) idleAuth = .ok status t ∧ status = xfsblSuccess := by
  obtain ⟨status, t, hrun, hiff⟩ := @authenticateAll_iff sevensHw Rsa.squaredExt unitCertificate 0 0 0 xfsblSuccess runs_sevensHw
    (Rsa.powerHw_exponentiates Rsa.squaredExt) (by decide +kernel) ((keyOk_shift unitCertificate_ppk).1 Rsa.keyOk_unitKey)
    ((keyOk_shift unitCertificate_spk).1 Rsa.keyOk_unitKey) [unitPartition, unitPartition] (by
      simpa using wellFormed_unitPartition) idleAuth
  refine ⟨status, t, hrun, hiff.2 ⟨⟨by decide +kernel, by decide +kernel⟩, spkAuthentic_unitCertificate,
    signed_unitCertificate (.inr (.inl rfl)), ?_⟩⟩
  have hone : SpkAuthentic sevensHw xfsblSuccess unitCertificate (0 + xfsblAuthCertPpkOffset) unitPartition.mem
      unitPartition.acOffset ∧ PartitionAuthentic sevensHw xfsblSuccess unitPartition.mem unitPartition.off unitPartition.len
      unitPartition.acOffset := ⟨spkAuthentic_unitCertificate, signed_unitCertificate (.inr (.inr rfl))⟩
  simpa using hone

/-! ## Runs -/

structure AuthRun where
  state : AuthState
  accepted : List AuthCall

/-- The calls in any order; those that return success are accepted. -/
def authSystem (hw : AuthHw) : TransSys AuthRun where
  init r := r.accepted = [] ∧ ∀ i, r.state.efusePpkKey i = 0
  next r r' := ∃ call status t, call.run hw r.state = .ok status t ∧
    r' = ⟨t, if status = xfsblSuccess then r.accepted ++ [call] else r.accepted⟩

section Runs

variable {hw : AuthHw} {ext : Nat → Nat}

/-- A PPK that is trusted signs the SPK of the call, which signs what the call is about. -/
def AuthCall.Certified (hw : AuthHw) (ext : Nat → Nat) : AuthCall → Prop
  | .bhAuthentication mem attrs data acOffset =>
    ∃ ppk, HoldsPpk ppk mem acOffset ∧ PpkTrusted hw (ppk.load 0 xfsblPpkSize.toNat) ∧
      SpkTrusted hw ext ppk mem acOffset ∧
      SignedBy hw ext .keccak (mem.load data (bhSize attrs).toNat) mem (acOffset + xfsblAuthCertSpkOffset) mem
        (acOffset + xfsblAuthCertBhdrSigOffset)
  | .authentication mem off len acOffset =>
    ∃ ppk, PpkTrusted hw (ppk.load 0 xfsblPpkSize.toNat) ∧ SpkTrusted hw ext ppk mem acOffset ∧
      (xfsblAuthCertMinSize ≤ len →
        ∃ p, SignedBy hw ext p (mem.load off (len - xfsblAuthCertMinSize).toNat ++ mem.load acOffset 0xCC0) mem
          (acOffset + xfsblAuthCertSpkOffset) mem (acOffset + xfsblAuthCertFsblSigOffset))

/-- `EfusePpkKey` is empty or trusted, and what is accepted is certified. -/
structure ChainInv (hw : AuthHw) (ext : Nat → Nat) (r : AuthRun) : Prop where
  key : (∀ i, r.state.efusePpkKey i = 0) ∨ PpkTrusted hw (r.state.efusePpkKey.load 0 xfsblPpkSize.toNat)
  certified : ∀ call ∈ r.accepted, call.Certified hw ext

/-- With an empty `EfusePpkKey` no signature is looked at: the exponent is zero. -/
theorem SpkTrusted.not_empty {ppk mem : Mem} {acOffset : Nat} (h : SpkTrusted hw ext ppk mem acOffset) :
    ¬ ∀ i, ppk i = 0 := by
  intro hzero
  obtain ⟨p, -, hsigned⟩ := h.signed
  refine hsigned.exponent ?_
  rw [Csu.load_const 0 ppk fun x _ _ => hzero x]
  rfl

theorem chainInv_step (hexp : hw.rsa.Exponentiates ext) (hen : hw.efuse efuseSecCtrl &&& efuseSecCtrlRsaEnMask ≠ 0)
    {r r' : AuthRun} (hinv : ChainInv hw ext r) (h : (authSystem hw).next r r') : ChainInv hw ext r' := by
  obtain ⟨call, status, t, hrun, rfl⟩ := h
  have haccepted (hcall : status = xfsblSuccess → call.Certified hw ext) :
      ∀ c ∈ (if status = xfsblSuccess then r.accepted ++ [call] else r.accepted), c.Certified hw ext := by
    intro c hc
    split at hc
    next hs =>
      rcases List.mem_append.1 hc with hold | hnew
      · exact hinv.certified c hold
      · rw [List.mem_singleton.1 hnew]
        exact hcall hs
    next => exact hinv.certified c hc
  cases call with
  | bhAuthentication mem attrs data acOffset =>
    have htrue : (hw.efuse efuseSecCtrl &&& efuseSecCtrlRsaEnMask != 0) = true := bne_iff_ne.2 hen
    rw [AuthCall.run, htrue] at hrun
    rcases bhAuthentication_ok hexp hrun with ⟨hkey, hfail⟩ | ⟨hholds, htrust, hsigned⟩
    · exact ⟨by rw [hkey]; exact hinv.key, haccepted fun hs => absurd hs hfail⟩
    · exact ⟨.inr htrust, haccepted fun hs => ⟨_, hholds, htrust, hsigned hs⟩⟩
  | authentication mem off len acOffset =>
    obtain ⟨hkey, hsigned⟩ := authentication_ok hexp hrun
    refine ⟨by rw [hkey]; exact hinv.key, haccepted fun hs => ?_⟩
    obtain ⟨hspk, hobject⟩ := hsigned hs
    exact ⟨_, hinv.key.resolve_left hspk.not_empty, hspk, hobject⟩

/-- Without an exponent no SPK is accepted. -/
theorem spkVer_exponent {mem : Mem} {acOffset : Nat} {s t : AuthState} {status : UInt32}
    (h : xfsblSpkVer hw mem acOffset xfsblHashTypeSha3 s = .ok status t) :
    t.efusePpkKey = s.efusePpkKey ∧ (status = xfsblSuccess → ofBE (s.efusePpkKey.load 1024 4) ≠ 0) := by
  obtain ⟨_, s1, hget, h⟩ := bind_ok.1 h
  obtain ⟨rfl, rfl⟩ := get_ok.1 hget
  obtain ⟨⟨status1, hash⟩, s2, hsha, h⟩ := bind_ok.1 h
  obtain ⟨v, -, rfl⟩ := onSha_ok.1 hsha
  dsimp only at h
  by_cases hsucc1 : status1 = xfsblSuccess
  · rw [if_neg (not_not_intro hsucc1)] at h
    obtain ⟨status2, s3, hverify, h⟩ := bind_ok.1 h
    obtain ⟨v2, hrun, rfl⟩ := onRsa_ok.1 hverify
    obtain ⟨status', v', hrun', hiff⟩ := @Rsa.verifySignature_run hw.rsa s.efusePpkKey mem 0
      (acOffset + xfsblAuthCertSpkSigOffset) hash xfsblErrorSpkRsaDecrypt xfsblErrorSpkSignature (by decide) (by decide)
      s.rsa
    obtain ⟨rfl, -⟩ := EStateM.Result.ok.inj (hrun'.symm.trans hrun)
    by_cases hsucc2 : status' = xfsblSuccess
    · rw [if_neg (not_not_intro hsucc2)] at h
      obtain ⟨-, rfl⟩ := pure_ok.1 h
      exact ⟨rfl, fun _ => (hiff.1 hsucc2).2.1⟩
    · rw [if_pos hsucc2] at h
      obtain ⟨hstatus, rfl⟩ := pure_ok.1 h
      exact ⟨rfl, fun hs => absurd (hstatus.trans hs) hsucc2⟩
  · rw [if_pos hsucc1] at h
    obtain ⟨hstatus, rfl⟩ := pure_ok.1 h
    exact ⟨rfl, fun hs => absurd (hstatus.trans hs) hsucc1⟩

/-- Nothing is accepted, and no PPK is kept. -/
def Rejects (r : AuthRun) : Prop := r.accepted = [] ∧ ∀ i, r.state.efusePpkKey i = 0

theorem rejects_step {done : UInt32} (hsha : RunsTo hw.sha done) (hdone : done ≠ xfsblSuccess)
    (hen : hw.efuse efuseSecCtrl &&& efuseSecCtrlRsaEnMask ≠ 0)
    (hppk : ∀ select, xfsblReadPpkHash hw select ≠ Vector.replicate 48 0) {r r' : AuthRun} (hr : Rejects r)
    (h : (authSystem hw).next r r') : Rejects r' := by
  obtain ⟨call, status, t, hrun, rfl⟩ := h
  have hrest : status ≠ xfsblSuccess → t.efusePpkKey = r.state.efusePpkKey →
      Rejects ⟨t, if status = xfsblSuccess then r.accepted ++ [call] else r.accepted⟩ := by
    intro hs hkey
    rw [if_neg hs]
    exact ⟨hr.1, by rw [hkey]; exact hr.2⟩
  cases call with
  | bhAuthentication mem attrs data acOffset =>
    have htrue : (hw.efuse efuseSecCtrl &&& efuseSecCtrlRsaEnMask != 0) = true := bne_iff_ne.2 hen
    rw [AuthCall.run, htrue] at hrun
    obtain ⟨status1, s1, hfirst, hkey, hiff⟩ := @ppkVer_iff hw mem done acOffset hsha r.state
    have hfail : status1 ≠ xfsblSuccess := fun hs => by
      have hhash := (hiff.1 hs).hash
      rw [AuthHw.hashed, if_neg hdone] at hhash
      exact hppk _ hhash.symm
    obtain ⟨status2, s2, hfirst', hrun⟩ := bind_ok.1 hrun
    rw [if_pos rfl] at hfirst'
    obtain ⟨rfl, rfl⟩ := EStateM.Result.ok.inj (hfirst.symm.trans hfirst')
    rw [if_pos hfail] at hrun
    obtain ⟨rfl, rfl⟩ := pure_ok.1 hrun
    exact hrest hfail hkey
  | authentication mem off len acOffset =>
    obtain ⟨status1, s1, hspk, hrun⟩ := bind_ok.1 hrun
    obtain ⟨hkey, hexpo⟩ := spkVer_exponent hspk
    have hfail : status1 ≠ xfsblSuccess := fun hs => hexpo hs (by
      rw [Csu.load_const 0 _ fun x _ _ => hr.2 x]
      rfl)
    rw [if_pos hfail] at hrun
    obtain ⟨rfl, rfl⟩ := pure_ok.1 hrun
    exact hrest hfail hkey

/-- **Fail-closed, but for an eFUSE hash of zeros**: with an engine that never ends a hash in time, whose failure no
caller looks at, nothing is accepted in any run, where the hashes in the eFUSEs are not zero. -/
theorem stalled_rejects {done : UInt32} (hsha : RunsTo hw.sha done) (hdone : done ≠ xfsblSuccess)
    (hen : hw.efuse efuseSecCtrl &&& efuseSecCtrlRsaEnMask ≠ 0)
    (hppk : ∀ select, xfsblReadPpkHash hw select ≠ Vector.replicate 48 0) {r : AuthRun}
    (h : (authSystem hw).Reachable r) : r.accepted = [] ∧ ∀ i, r.state.efusePpkKey i = 0 :=
  h.inv (fun _ hs => hs) fun _ _ hr _ hnext => rejects_step hsha hdone hen hppk hr hnext

end Runs

theorem reachable_unitCertificate : ∃ r, (authSystem sevensHw).Reachable r ∧
    r.accepted = [.bhAuthentication unitCertificate 0 0 0, unitPartition.call] := by
  have hexp := Rsa.powerHw_exponentiates Rsa.squaredExt
  have hkey := (keyOk_shift unitCertificate_ppk).1 Rsa.keyOk_unitKey
  obtain ⟨status1, s1, hrun1, hp1, hholds⟩ := @bhAuthentication_iff sevensHw Rsa.squaredExt unitCertificate xfsblSuccess 0 0 0 true
    runs_sevensHw hexp hkey ((keyOk_shift unitCertificate_spk).1 Rsa.keyOk_unitKey) idleAuth
  have hsucc1 : status1 = xfsblSuccess := hp1.2 ⟨fun _ => ⟨by decide +kernel, by decide +kernel⟩,
    spkAuthentic_unitCertificate, signed_unitCertificate (.inr (.inl rfl))⟩
  have hheld := hholds hsucc1
  obtain ⟨status2, s2, hrun2, -, hp2⟩ := @authentication_iff sevensHw Rsa.squaredExt unitCertificate s1 xfsblSuccess 0 0
    xfsblAuthCertMinSize runs_sevensHw hexp ((keyOk_shift hheld.byte).1 hkey) wellFormed_unitPartition.spk
    wellFormed_unitPartition.len
  have hsucc2 : status2 = xfsblSuccess := hp2.2 ⟨hheld.spkAuthentic.2 spkAuthentic_unitCertificate,
    signed_unitCertificate (.inr (.inr rfl))⟩
  have hinit : (authSystem sevensHw).init ⟨idleAuth, []⟩ := ⟨rfl, fun _ => rfl⟩
  have hfirst : (authSystem sevensHw).next ⟨idleAuth, []⟩ ⟨s1, [.bhAuthentication unitCertificate 0 0 0]⟩ :=
    ⟨.bhAuthentication unitCertificate 0 0 0, status1, s1, hrun1, by rw [if_pos hsucc1]; rfl⟩
  have hsecond : (authSystem sevensHw).next ⟨s1, [.bhAuthentication unitCertificate 0 0 0]⟩
      ⟨s2, [.bhAuthentication unitCertificate 0 0 0, unitPartition.call]⟩ :=
    ⟨unitPartition.call, status2, s2, hrun2, by rw [if_pos hsucc2]; rfl⟩
  exact ⟨_, ⟨_, hinit, .snoc (.snoc (.refl _) trivial hfirst) trivial hsecond⟩, rfl⟩

/-- The waits for the end of a hash all time out. -/
def stalledHw : AuthHw := { sevensHw with sha := { sevensHw.sha with sha3WaitForDone := fun _ => xfsblFailure } }

theorem runs_stalledHw : stalledHw.Runs xfsblFailure where
  sha := ⟨fun _ => rfl, fun _ => rfl, fun _ => rfl, fun _ => rfl⟩
  cryptoCheck := runs_sevensHw.cryptoCheck
  rsa := runs_sevensHw.rsa

theorem ppkHash_stalledHw (select : UInt8) : xfsblReadPpkHash stalledHw select ≠ Vector.replicate 48 0 := by
  by_cases hs : select = 0
  · subst hs
    decide +kernel
  · have hone : xfsblReadPpkHash stalledHw select = xfsblReadPpkHash stalledHw 1 := by
      unfold xfsblReadPpkHash
      rw [if_neg hs]
      rfl
    rw [hone]
    decide +kernel

/-- The certificate that sound engines accept is refused. -/
theorem stalled_rejects_unitCertificate :
    ∃ status t, AuthCall.run stalledHw (.bhAuthentication unitCertificate 0 0 0) idleAuth = .ok status t ∧
      status ≠ xfsblSuccess := by
  obtain ⟨status, t, hrun, -⟩ := @bhAuthentication_iff stalledHw Rsa.squaredExt unitCertificate xfsblFailure 0 0 0 true
    runs_stalledHw (Rsa.powerHw_exponentiates Rsa.squaredExt) ((keyOk_shift unitCertificate_ppk).1 Rsa.keyOk_unitKey)
    ((keyOk_shift unitCertificate_spk).1 Rsa.keyOk_unitKey) idleAuth
  refine ⟨status, t, hrun, fun hs => ?_⟩
  have hinit : (authSystem stalledHw).init ⟨idleAuth, []⟩ := ⟨rfl, fun _ => rfl⟩
  have hnext : (authSystem stalledHw).next ⟨idleAuth, []⟩ ⟨t, [.bhAuthentication unitCertificate 0 0 0]⟩ :=
    ⟨.bhAuthentication unitCertificate 0 0 0, status, t, hrun, by rw [if_pos hs]; rfl⟩
  have hreach : (authSystem stalledHw).Reachable ⟨t, [.bhAuthentication unitCertificate 0 0 0]⟩ :=
    ⟨_, hinit, .snoc (.refl _) trivial hnext⟩
  have hnone := (stalled_rejects runs_stalledHw.sha (by decide) (by decide +kernel) ppkHash_stalledHw hreach).1
  exact absurd hnone (List.cons_ne_nil _ _)

end MeasuredBoot.Auth
