import MeasuredBoot.Lib.Zoom
import MeasuredBoot.RsaSignature
import MeasuredBoot.ShaDigest
import Mathlib.Data.Nat.Bitwise

/-!
# Authentication (`xfsbl_authentication.c`)

A certificate holds a primary key (PPK), a secondary key (SPK) and signatures. `XFsbl_BhAuthentication` takes the PPK
whose hash is in the eFUSEs and keeps it; it signs the SPK, which signs the boot header, the image header and
the partitions. Here are the functions, what their hashes are of, however the engine ends (`hashPieces_ok`), and
what they read from the eFUSEs.
-/

namespace MeasuredBoot.Auth

open Prog
open MeasuredBoot.Csu (ShaHw ShaState ShaM Sha3PadType xsecureSha3PadSelection onSha3 xfsblShaStart xfsblShaUpdate
  xfsblShaFinish xfsblHashTypeSha3 initializeAndStart updateDropped finishDropped Session Running)
open MeasuredBoot.Rsa (RsaHw RsaState RsaM verifySignature KeyOk Signed xsecureHashTypeSha3)

/-! ## Source -/

def xfsblSpkSize : UInt32 := 512 + 512 + 64
def xfsblPpkSize : UInt32 := xfsblSpkSize
def xfsblAuthCertPpkOffset : Nat := 0x40
def xfsblAuthCertSpkOffset : Nat := 0x480
def xfsblAuthCertSpkSigOffset : Nat := 0x8C0
def xfsblAuthCertBhdrSigOffset : Nat := 0xAC0
def xfsblAuthCertFsblSigOffset : Nat := 0xCC0
def xfsblAuthCertMinSize : UInt32 := 0xEC0
def xfsblFsblSigSize : UInt32 := 512

def xfsblAhAttrSpkIdFuseSelMask : UInt32 := 0xC0000
def xihAcAttrbPpkSelectMask : UInt32 := 0x30000
def xfsblSpkidEfuse : UInt8 := 1
def xfsblUserEfuse : UInt8 := 2

def efuseSecCtrl : UInt32 := 0xFFCC1058
def efuseSecCtrlRsaEnMask : UInt32 := 0x03FFF800
def efuseSecCtrlPpk0RvkMask : UInt32 := 0x18000000
def efuseSecCtrlPpk1RvkMask : UInt32 := 0xC0000000
def efuseSpkid : UInt32 := 0xFFCC105C
def efusePpk0 : UInt32 := 0xFFCC10A0
def efusePpk1 : UInt32 := 0xFFCC10D0
def xfsblUserEfuseAddr : UInt32 := 0xFFCC1020

def xfsblErrorSpkRsaDecrypt : UInt32 := 0x2F
def xfsblErrorSpkSignature : UInt32 := 0x30
def xfsblErrorPartRsaDecrypt : UInt32 := 0x31
def xfsblErrorPartSignature : UInt32 := 0x32
def xfsblErrorPpkVerification : UInt32 := 0x65
def xfsblErrorSpkidVerification : UInt32 := 0x66
def xsfblErrorPpkSelectIsrevoked : UInt32 := 0x67
def xfsblErrorBhRsaDecrypt : UInt32 := 0x68
def xfsblErrorBhSignature : UInt32 := 0x69
def xfsblErrorUserEfuseIsrevoked : UInt32 := 0x72
def xfsblErrorOutOfRangeUserEfuse : UInt32 := 0x73
def xfsblErrorInvalidEfuseSelect : UInt32 := 0x74

def xihBhImageAttrbPufBhMask : UInt32 := 0xC0
def xihBhMinSize : UInt32 := 0x8B8
def xihBhMaxSize : UInt32 := xihBhMinSize + 0x182 * 4

structure AuthHw where
  sha : ShaHw
  rsa : RsaHw
  /-- The eFUSE cache, by its addresses. -/
  efuse : UInt32 → UInt32

structure AuthState where
  sha : ShaState
  rsa : RsaState
  /-- `EfusePpkKey`. -/
  efusePpkKey : Mem

abbrev AuthM := EStateM Halt AuthState

def onSha {α : Type} (c : ShaM α) : AuthM α := zoom AuthState.sha (fun s t => { s with sha := t }) c

def onRsa {α : Type} (c : RsaM α) : AuthM α := zoom AuthState.rsa (fun s t => { s with rsa := t }) c

def xfsblSha3PadSelect (padType : Sha3PadType) : ShaM UInt32 := onSha3 fun sha => xsecureSha3PadSelection sha padType

section Functions

variable (hw : AuthHw) (mem : Mem)

def updatePieces (hashLen : UInt32) : List (Nat × UInt32) → ShaM Unit
  | [] => pure ()
  | (data, size) :: pieces => do
    xfsblShaUpdate hw.sha mem data size hashLen
    updatePieces hashLen pieces

/-- `XFsbl_ShaStart`, the choice of the padding, the updates and `XFsbl_ShaFinish`: the hash of the pieces, in a
buffer of zeros. -/
def hashPieces (padSelect : ShaM UInt32) (pieces : List (Nat × UInt32)) (hashLen : UInt32) : ShaM (UInt32 × Digest) := do
  xfsblShaStart hw.sha hashLen
  let status ← padSelect
  if status ≠ xfsblSuccess then pure (status, Vector.replicate 48 0)
  else do
    updatePieces hw mem hashLen pieces
    let hash ← xfsblShaFinish hw.sha (Vector.replicate 48 0) hashLen
    pure (xfsblSuccess, hash)

/-- `*(u32 *)AcPtr` and the word behind it. -/
def acWord (acOffset index : Nat) : UInt32 := word32 (fun i => mem (acOffset + i)) index

def spkIdFuseSel (acOffset : Nat) : UInt8 := ((acWord mem acOffset 0 &&& xfsblAhAttrSpkIdFuseSelMask) >>> 18).toUInt8

def spkPadSelect (sel : UInt8) : ShaM UInt32 :=
  if sel = xfsblSpkidEfuse then xfsblSha3PadSelect .keccak
  else if sel ≠ xfsblUserEfuse then pure xfsblErrorInvalidEfuseSelect
  else pure xfsblSuccess

/-- The end of `XFsbl_SpkVer`. -/
def spkRevocation (sel : UInt8) (spkId : UInt32) : UInt32 :=
  if hw.efuse efuseSecCtrl &&& efuseSecCtrlRsaEnMask ≠ 0 then
    if sel = xfsblSpkidEfuse then
      if hw.efuse efuseSpkid ≠ spkId then xfsblErrorSpkidVerification else xfsblSuccess
    else if sel = xfsblUserEfuse then
      if spkId ≥ 1 ∧ spkId ≤ 256 then
        if hw.efuse (xfsblUserEfuseAddr + (spkId - 1) / 32 * 4) &&& 1 <<< ((spkId - 1) % 32) ≠ 0 then
          xfsblErrorUserEfuseIsrevoked
        else xfsblSuccess
      else xfsblErrorOutOfRangeUserEfuse
    else xfsblSuccess
  else xfsblSuccess

def xfsblSpkVer (acOffset : Nat) (hashLen : UInt32) : AuthM UInt32 := do
  let s ← get
  let sel := spkIdFuseSel mem acOffset
  let r ← onSha (hashPieces hw mem (spkPadSelect sel)
    [(acOffset, 8), (acOffset + xfsblAuthCertSpkOffset, xfsblSpkSize)] hashLen)
  if r.1 ≠ xfsblSuccess then pure r.1
  else do
    let status ← onRsa (verifySignature hw.rsa xfsblErrorSpkRsaDecrypt xfsblErrorSpkSignature s.efusePpkKey 0 mem
      (acOffset + xfsblAuthCertSpkSigOffset) r.2 hashLen)
    if status ≠ xfsblSuccess then pure status
    else pure (spkRevocation hw sel (acWord mem acOffset 1))

def xfsblPartitionSignVer (partitionOffset : Nat) (partitionLen : UInt32) (acOffset : Nat) : AuthM UInt32 := do
  let hashLen := xfsblHashTypeSha3
  let hashDataLen := partitionLen - xfsblAuthCertMinSize
  let r ← onSha (hashPieces hw mem (pure xfsblSuccess)
    [(partitionOffset, hashDataLen), (acOffset, xfsblAuthCertMinSize - xfsblFsblSigSize)] hashLen)
  onRsa (verifySignature hw.rsa xfsblErrorPartRsaDecrypt xfsblErrorPartSignature mem
    (acOffset + xfsblAuthCertSpkOffset) mem (acOffset + xfsblAuthCertFsblSigOffset) r.2 hashLen)

def xfsblAuthentication (partitionOffset : Nat) (partitionLen : UInt32) (acOffset : Nat) : AuthM UInt32 := do
  let status ← xfsblSpkVer hw mem acOffset xfsblHashTypeSha3
  if status ≠ xfsblSuccess then pure status
  else xfsblPartitionSignVer hw mem partitionOffset partitionLen acOffset

/-- The twelve words of a hash in the eFUSEs. -/
def xfsblReadPpkHash (ppkSelect : UInt8) : Digest :=
  let base := if ppkSelect = 0 then efusePpk0 else efusePpk1
  Vector.ofFn fun i => (leBytes 4 (hw.efuse (base + .ofNat (4 * (i / 4)))).toNat).getD (i % 4) 0

def hashWord (hash : Digest) (index : Nat) : UInt32 := word32 (hash.toList.getD · 0) index

def compareWords (hash1 hash2 : Digest) : Nat → Nat → UInt32
  | 0, _ => xfsblSuccess
  | n + 1, index =>
    if hashWord hash1 index ≠ hashWord hash2 index then xfsblFailure else compareWords hash1 hash2 n (index + 1)

def xfsblCompareHashs (hash1 hash2 : Digest) (hashLen : UInt32) : UInt32 :=
  compareWords hash1 hash2 (hashLen.toNat / 4) 0

def ppkSelect (acOffset : Nat) : UInt8 := if acWord mem acOffset 0 &&& xihAcAttrbPpkSelectMask = 0 then 0 else 1

def ppkRvkMask (select : UInt8) : UInt32 := if select = 0 then efuseSecCtrlPpk0RvkMask else efuseSecCtrlPpk1RvkMask

def xfsblPpkVer (acOffset : Nat) (hashLen : UInt32) : AuthM UInt32 := do
  let select := ppkSelect mem acOffset
  if hw.efuse efuseSecCtrl &&& ppkRvkMask select ≠ 0 then pure xsfblErrorPpkSelectIsrevoked
  else do
    let efusePpkHash := xfsblReadPpkHash hw select
    let r ← onSha (hashPieces hw mem (xfsblSha3PadSelect .keccak)
      [(acOffset + xfsblAuthCertPpkOffset, xfsblPpkSize)] hashLen)
    if r.1 ≠ xfsblSuccess then pure r.1
    else if xfsblCompareHashs r.2 efusePpkHash hashLen ≠ xfsblSuccess then pure xfsblErrorPpkVerification
    else pure xfsblSuccess

def xfsblBhAuthentication (bootHdrAttributes : UInt32) (data acOffset : Nat) (isEfuseRsa : Bool) : AuthM UInt32 := do
  let hashLen := xfsblHashTypeSha3
  let sizeofBh := if bootHdrAttributes &&& xihBhImageAttrbPufBhMask ≠ 0 then xihBhMaxSize else xihBhMinSize
  let status ← (if isEfuseRsa then xfsblPpkVer hw mem acOffset hashLen else pure xfsblSuccess)
  if status ≠ xfsblSuccess then pure status
  else do
    modify fun s => { s with
      efusePpkKey := s.efusePpkKey.fill 0 xfsblPpkSize.toNat fun i => mem (acOffset + xfsblAuthCertPpkOffset + i) }
    let status ← xfsblSpkVer hw mem acOffset hashLen
    if status ≠ xfsblSuccess then pure status
    else do
      let r ← onSha (hashPieces hw mem (xfsblSha3PadSelect .keccak) [(data, sizeofBh)] hashLen)
      if r.1 ≠ xfsblSuccess then pure r.1
      else
        onRsa (verifySignature hw.rsa xfsblErrorBhRsaDecrypt xfsblErrorBhSignature mem
          (acOffset + xfsblAuthCertSpkOffset) mem (acOffset + xfsblAuthCertBhdrSigOffset) r.2 hashLen)

end Functions

/-! ## What a hash is of -/

/-- The bytes of the pieces. -/
def piecesBytes (mem : Mem) (pieces : List (Nat × UInt32)) : List UInt8 :=
  (pieces.map fun p => mem.load p.1 p.2.toNat).flatten

theorem piecesBytes_one (mem : Mem) (a : Nat) (n : UInt32) : piecesBytes mem [(a, n)] = mem.load a n.toNat :=
  List.append_nil _

theorem piecesBytes_two (mem : Mem) (a b : Nat) (m n : UInt32) :
    piecesBytes mem [(a, m), (b, n)] = mem.load a m.toNat ++ mem.load b n.toNat :=
  congrArg (mem.load a m.toNat ++ ·) (List.append_nil _)

/-- The hash of a message, or the zeros of the buffer. -/
def AuthHw.HashOf (hw : AuthHw) (padType : Sha3PadType) (message : List UInt8) (hash : Digest) : Prop :=
  hash = hw.sha.keccak (message ++ padType.pad message.length) ∨ hash = Vector.replicate 48 0

section Hash

variable {hw : AuthHw} {mem : Mem} {s t : ShaState} {padType : Sha3PadType} {message : List UInt8}
  {pieces : List (Nat × UInt32)} {padSelect : ShaM UInt32} {status : UInt32} {hash : Digest} {u : Unit}

/-- A hash is under way: the engine runs, and `message` went there. -/
structure Begun (s : ShaState) (padType : Sha3PadType) (message : List UInt8) : Prop where
  started : s.secureSha3.sha3State = .engineStarted
  running : Running s padType message

theorem shaStart_ok (h : xfsblShaStart hw.sha xfsblHashTypeSha3 s = .ok u t) : ∃ p, Begun t p [] := by
  rw [xfsblShaStart, if_pos rfl] at h
  obtain ⟨hstarted, p, hrun, -⟩ := Csu.start_ok h
  exact ⟨p, hstarted, hrun⟩

/-- Nothing is hashed yet, so the padding can be chosen. -/
theorem padSelect_run (hs : Begun s padType []) (q : Sha3PadType) :
    ∃ t, xfsblSha3PadSelect q s = .ok xfsblSuccess t ∧ Begun t q [] := by
  have hlen : s.secureSha3.sha3Len = 0 := hs.running.len
  have hrun : xsecureSha3PadSelection s.secureSha3 q s =
      .ok (xfsblSuccess, { s.secureSha3 with sha3PadType := q }) s := by
    refine bind_ok.2 ⟨(), s, Csu.assert_ok.2 ⟨.inr hs.started, rfl⟩, ?_⟩
    rw [if_neg (not_not_intro hlen)]
    rfl
  exact ⟨_, Csu.onSha3_run hrun, hs.started, hs.running.fed, rfl, hs.running.notLast, hs.running.len⟩

theorem updatePieces_ok (hs : Session s padType message)
    (h : updatePieces hw mem xfsblHashTypeSha3 pieces s = .ok u t) :
    Session t padType (message ++ piecesBytes mem pieces) := by
  induction pieces generalizing s message with
  | nil =>
    obtain ⟨-, rfl⟩ := pure_ok.1 h
    rwa [piecesBytes, List.map_nil, List.flatten_nil, List.append_nil]
  | cons p pieces ih =>
    obtain ⟨_, s1, hpiece, hrest⟩ := bind_ok.1 h
    rw [xfsblShaUpdate, if_pos rfl] at hpiece
    rw [piecesBytes, List.map_cons, List.flatten_cons, ← List.append_assoc]
    exact ih (Csu.updateDropped_ok hs hpiece) hrest

/-- A choice of padding: behind it the hash is still at its beginning, with padding `q`. -/
def Chooses (padSelect : ShaM UInt32) (q : Sha3PadType → Prop) : Prop :=
  ∀ s t p, Begun s p [] → padSelect s = .ok xfsblSuccess t → ∃ p', q p' ∧ Begun t p' []

theorem chooses_keccak : Chooses (xfsblSha3PadSelect .keccak) (· = .keccak) := by
  intro s t p hs h
  obtain ⟨t', hrun, hbegun⟩ := padSelect_run hs .keccak
  obtain ⟨-, rfl⟩ := EStateM.Result.ok.inj (hrun.symm.trans h)
  exact ⟨_, rfl, hbegun⟩

theorem chooses_pure : Chooses (pure xfsblSuccess) fun _ => True := by
  intro s t p hs h
  obtain ⟨-, rfl⟩ := pure_ok.1 h
  exact ⟨p, trivial, hs⟩

/-- `SPKID_EFUSE` takes the Keccak padding, and `USER_EFUSE` leaves the one there is. -/
def SpkPad (sel : UInt8) (p : Sha3PadType) : Prop := sel = xfsblSpkidEfuse ∧ p = .keccak ∨ sel = xfsblUserEfuse

theorem chooses_spk (sel : UInt8) : Chooses (spkPadSelect sel) (SpkPad sel) := by
  unfold spkPadSelect
  split
  next hsel =>
    intro s t p hs h
    obtain ⟨p', hp, hbegun⟩ := chooses_keccak s t p hs h
    exact ⟨p', .inl ⟨hsel, hp⟩, hbegun⟩
  next =>
    split
    next =>
      intro s t p hs h
      exact absurd (pure_ok.1 h).1 (by decide)
    next hsel =>
      intro s t p hs h
      obtain ⟨p', -, hbegun⟩ := chooses_pure s t p hs h
      exact ⟨p', .inr (not_not.1 hsel), hbegun⟩

/-- However the operations of the engine end, the hash is that of the pieces, or zeros. -/
theorem hashPieces_ok {q : Sha3PadType → Prop} (hpad : Chooses padSelect q)
    (hlen : (piecesBytes mem pieces).length < 2 ^ 32)
    (h : hashPieces hw mem padSelect pieces xfsblHashTypeSha3 s = .ok (xfsblSuccess, hash) t) :
    ∃ p, q p ∧ hw.HashOf p (piecesBytes mem pieces) hash := by
  obtain ⟨_, s1, hstart, h⟩ := bind_ok.1 h
  obtain ⟨p, hbegun⟩ := shaStart_ok hstart
  obtain ⟨status, s2, hselect, h⟩ := bind_ok.1 h
  by_cases hsucc : status = xfsblSuccess
  · rw [if_neg (not_not_intro hsucc)] at h
    rw [hsucc] at hselect
    obtain ⟨p', hp', hbegun'⟩ := hpad _ _ _ hbegun hselect
    obtain ⟨_, s3, hupdates, h⟩ := bind_ok.1 h
    obtain ⟨d, s4, hfinish, h⟩ := bind_ok.1 h
    obtain ⟨heq, -⟩ := pure_ok.1 h
    obtain rfl : d = hash := congrArg Prod.snd heq
    rw [xfsblShaFinish, if_pos rfl] at hfinish
    have hsession := updatePieces_ok (fun _ => hbegun'.running) hupdates
    obtain ⟨done, hd⟩ := Csu.finishDropped_ok hsession hlen hfinish
    refine ⟨p', hp', ?_⟩
    rw [hd]
    split
    · exact .inl rfl
    · exact .inr rfl
  · rw [if_pos hsucc] at h
    obtain ⟨heq, -⟩ := pure_ok.1 h
    exact absurd (congrArg Prod.fst heq) hsucc

/-- Without a choice of padding, a hash that returns is a success. -/
theorem hashPieces_pure (h : hashPieces hw mem (pure xfsblSuccess) pieces xfsblHashTypeSha3 s = .ok (status, hash) t) :
    status = xfsblSuccess := by
  obtain ⟨_, s1, -, h⟩ := bind_ok.1 h
  obtain ⟨_, s2, hselect, h⟩ := bind_ok.1 h
  obtain ⟨rfl, rfl⟩ := pure_ok.1 hselect
  rw [if_neg (not_not_intro rfl)] at h
  obtain ⟨_, s3, -, h⟩ := bind_ok.1 h
  obtain ⟨d, s4, -, h⟩ := bind_ok.1 h
  exact (congrArg Prod.fst (pure_ok.1 h).1).symm

/-! ## An engine that runs -/

/-- No operation fails while the engine is fed, and the wait for its end always gives `done`. -/
structure RunsTo (hw : ShaHw) (done : UInt32) : Prop where
  cryptoCheck : ∀ n, hw.cryptoCheck n = xfsblSuccess
  sssSha : ∀ n, hw.sssSha n = xfsblSuccess
  dmaWaitForDone : ∀ n, hw.dmaWaitForDone n = xfsblSuccess
  sha3WaitForDone : ∀ n, hw.sha3WaitForDone n = done

/-- The engine with its end in time. -/
def released (hw : ShaHw) : ShaHw := { hw with sha3WaitForDone := fun _ => xfsblSuccess }

theorem RunsTo.works {hw : ShaHw} {done : UInt32} (h : RunsTo hw done) : (released hw).Works :=
  ⟨h.cryptoCheck, h.sssSha, h.dmaWaitForDone, fun _ => rfl⟩

theorem dataUpdateLoop_released (hw : ShaHw) (mem : Mem) (isLast : Bool) (l : Csu.Update) :
    Csu.dataUpdateLoop (released hw) mem isLast l = Csu.dataUpdateLoop hw mem isLast l := by
  induction l using Csu.dataUpdateLoop.induct hw mem with
  | case1 l h p remaining ih =>
    rw [Csu.dataUpdateLoop, Csu.dataUpdateLoop, if_pos h, if_pos h]
    refine congrArg (fun rest => Csu.xsecureSha3DmaTransfer hw p.addr p.dmableDataLen p.bytes
      (remaining == 0 && isLast) >>= rest) (funext fun status => ?_)
    by_cases hs : status = xfsblSuccess
    · rw [if_neg (not_not_intro hs), if_neg (not_not_intro hs)]
      exact ih
    · rw [if_pos hs, if_pos hs]
  | case2 l h => rw [Csu.dataUpdateLoop, Csu.dataUpdateLoop, if_neg h, if_neg h]

theorem dataUpdate_released (hw : ShaHw) (sha : Csu.Sha3) (mem : Mem) (data : Nat) (size : UInt32) (isLast : Bool) :
    Csu.xsecureSha3DataUpdate (released hw) sha mem data size isLast =
      Csu.xsecureSha3DataUpdate hw sha mem data size isLast := by
  unfold Csu.xsecureSha3DataUpdate
  rw [dataUpdateLoop_released]

theorem updateLoop_released (hw : ShaHw) (sha : Csu.Sha3) (mem : Mem) (data : Nat) (size : UInt32) :
    Csu.updateLoop (released hw) sha mem data size = Csu.updateLoop hw sha mem data size := by
  induction sha, data, size using Csu.updateLoop.induct with
  | case1 sha data size h ih =>
    rw [Csu.updateLoop, Csu.updateLoop, if_pos h, if_pos h, dataUpdate_released]
    refine congrArg _ (funext fun r => ?_)
    rw [ih r]
  | case2 sha data size h =>
    rw [Csu.updateLoop, Csu.updateLoop, if_neg h, if_neg h, dataUpdate_released]

theorem updateDropped_released (hw : ShaHw) (mem : Mem) (data : Nat) (size : UInt32) :
    updateDropped (released hw) mem data size = updateDropped hw mem data size := by
  unfold updateDropped Csu.xsecureSha3Update
  simp only [updateLoop_released]

/-- What is in the buffer behind a hash of `message`. -/
def AuthHw.hashed (hw : AuthHw) (done : UInt32) (p : Sha3PadType) (message : List UInt8) : Digest :=
  if done = xfsblSuccess then hw.sha.keccak (message ++ p.pad message.length) else Vector.replicate 48 0

section Runs

variable {done : UInt32} (h : RunsTo hw.sha done)

include h

theorem updatePieces_run (pieces : List (Nat × UInt32)) (hs : Begun s padType message) :
    ∃ t, updatePieces hw mem xfsblHashTypeSha3 pieces s = .ok () t ∧
      Begun t padType (message ++ piecesBytes mem pieces) := by
  induction pieces generalizing s message with
  | nil =>
    refine ⟨s, rfl, ?_⟩
    rwa [piecesBytes, List.map_nil, List.flatten_nil, List.append_nil]
  | cons p pieces ih =>
    obtain ⟨s1, hpiece, hstarted⟩ := h.works.updateDropped mem p.1 p.2 hs.started hs.running
    have hrunning := Csu.updateDropped_ok (fun _ => hs.running) hpiece hstarted
    obtain ⟨t, hrest, hbegun⟩ := ih ⟨hstarted, hrunning⟩
    rw [updateDropped_released] at hpiece
    refine ⟨t, bind_ok.2 ⟨(), s1, ?_, hrest⟩, ?_⟩
    · rw [xfsblShaUpdate, if_pos rfl]
      exact hpiece
    · rwa [piecesBytes, List.map_cons, List.flatten_cons, ← List.append_assoc]

/-- The end of a hash writes the buffer only if it comes in time. -/
theorem finish_run (hs : Begun s padType message) (hlen : message.length < 2 ^ 32) :
    ∃ t, finishDropped hw.sha (Vector.replicate 48 0) s = .ok (hw.hashed done padType message) t := by
  obtain ⟨d, sha, t, hrun⟩ := h.works.finish (Vector.replicate 48 0) hs.started hs.running.fed
    (hs.running.counts hlen)
  obtain ⟨_, s1, hassert, hrun⟩ := bind_ok.1 hrun
  obtain ⟨-, rfl⟩ := Csu.assert_ok.1 hassert
  obtain ⟨⟨status, size, m⟩, v, htransfer, hrun⟩ := bind_ok.1 hrun
  have hsucc : status = xfsblSuccess := by
    by_contra hne
    dsimp only at hrun
    rw [if_pos hne] at hrun
    exact hne (congrArg Prod.fst (pure_ok.1 hrun).1)
  subst hsucc
  have habs := Csu.finishTransfer_ok hs.running.fed (hs.running.counts hlen) htransfer
  rw [hs.running.padType] at habs
  have hash : hw.hashed done padType message =
      if done ≠ xfsblSuccess then Vector.replicate 48 0 else hw.sha.keccak v.absorbed := by
    rw [AuthHw.hashed, habs, ite_not]
  have hend : Csu.xsecureSha3Finish hw.sha s.secureSha3 (Vector.replicate 48 0) s = .ok
      (done, hw.hashed done padType message,
        { s.secureSha3 with partialData := m.fill 0 size.toNat fun _ => 0, sha3State := .initialized })
      { v with tick := v.tick + 1 } := by
    refine bind_ok.2 ⟨(), s, Csu.assert_ok.2 ⟨hs.started, rfl⟩, bind_ok.2 ⟨_, v, htransfer, ?_⟩⟩
    dsimp only
    rw [if_neg (not_not_intro rfl), hash]
    exact bind_ok.2 ⟨done, _, Csu.ask_ok.2 ⟨h.sha3WaitForDone _, rfl⟩, rfl⟩
  exact ⟨_, Csu.onSha3_run (bind_ok.2 ⟨_, _, hend, rfl⟩)⟩

theorem hashPieces_run (hlen : (piecesBytes mem pieces).length < 2 ^ 32)
    (hpad : ∀ s, Begun s .nist [] → ∃ t, padSelect s = .ok xfsblSuccess t ∧ Begun t padType []) (s : ShaState) :
    ∃ t, hashPieces hw mem padSelect pieces xfsblHashTypeSha3 s =
      .ok (xfsblSuccess, hw.hashed done padType (piecesBytes mem pieces)) t := by
  obtain ⟨s1, hstart⟩ := h.works.start s
  obtain ⟨hstarted, p, hrunning, hp⟩ := Csu.start_ok hstart
  rw [hp (h.cryptoCheck _)] at hrunning
  obtain ⟨s2, hselect, hbegun⟩ := hpad s1 ⟨hstarted, hrunning⟩
  obtain ⟨s3, hupdates, hbegun⟩ := updatePieces_run h pieces hbegun
  obtain ⟨t, hfinish⟩ := finish_run h hbegun hlen
  refine ⟨t, bind_ok.2 ⟨(), s1, hstart, bind_ok.2 ⟨_, s2, hselect, ?_⟩⟩⟩
  rw [if_neg (not_not_intro rfl)]
  exact bind_ok.2 ⟨(), s3, hupdates, bind_ok.2 ⟨_, t, hfinish, rfl⟩⟩

end Runs

end Hash

/-! ## The eFUSEs -/

section Efuse

variable {hw : AuthHw} {mem : Mem} {hash1 hash2 : Digest}

theorem compareWords_iff {n index : Nat} : compareWords hash1 hash2 n index = xfsblSuccess ↔
    ∀ i, index ≤ i → i < index + n → hashWord hash1 i = hashWord hash2 i := by
  induction n generalizing index with
  | zero => exact iff_of_true rfl fun i h1 h2 => by omega
  | succ n ih =>
    unfold compareWords
    split
    next hne => exact iff_of_false (by decide) fun h => hne (h index (Nat.le_refl _) (by omega))
    next heq =>
      rw [ih]
      constructor
      · intro h i h1 h2
        rcases Nat.eq_or_lt_of_le h1 with rfl | hlt
        · exact not_not.1 heq
        · exact h i hlt (by omega)
      · exact fun h i h1 h2 => h i (by omega) (by omega)

theorem load_hashWord {i : Nat} (h : hashWord hash1 i = hashWord hash2 i) :
    Mem.load (hash1.toList.getD · 0) (4 * i) 4 = Mem.load (hash2.toList.getD · 0) (4 * i) 4 := by
  have hnat := congrArg UInt32.toNat h
  rw [hashWord, hashWord, Rsa.toNat_word32, Rsa.toNat_word32] at hnat
  rw [← leBytes_ofLE (Mem.load (hash1.toList.getD · 0) (4 * i) 4),
    ← leBytes_ofLE (Mem.load (hash2.toList.getD · 0) (4 * i) 4), hnat, Mem.length_load, Mem.length_load]

theorem compareHashs_iff : xfsblCompareHashs hash1 hash2 xfsblHashTypeSha3 = xfsblSuccess ↔ hash1 = hash2 := by
  have hwords : (xfsblHashTypeSha3.toNat / 4) = 12 := rfl
  rw [xfsblCompareHashs, hwords, compareWords_iff]
  refine ⟨fun h => Vector.ext fun i hi => ?_, fun h _ _ _ => by rw [h]⟩
  have hword := load_hashWord (h (i / 4) (Nat.zero_le _) (by omega))
  have hbyte := Mem.load_inj hword (x := i) (by omega) (by omega)
  simpa [hi] using hbyte

/-- A bit of the user eFUSEs. -/
def AuthHw.userEfuse (hw : AuthHw) (i : Nat) : Bool :=
  (hw.efuse (xfsblUserEfuseAddr + .ofNat (i / 32 * 4))).toNat.testBit (i % 32)

/-- The eFUSEs allow the SPK: its id is the one that is burnt, or its bit is not. -/
def SpkAllowed (hw : AuthHw) (sel : UInt8) (spkId : UInt32) : Prop :=
  sel = xfsblSpkidEfuse ∧ hw.efuse efuseSpkid = spkId ∨
    sel = xfsblUserEfuse ∧ 1 ≤ spkId.toNat ∧ spkId.toNat ≤ 256 ∧ hw.userEfuse (spkId.toNat - 1) = false

theorem and_shiftLeft_ne_zero (x k : UInt32) (hk : k.toNat < 32) :
    x &&& 1 <<< k ≠ 0 ↔ x.toNat.testBit k.toNat = true := by
  have hbit : ((1 : UInt32) <<< k).toNat = 2 ^ k.toNat := by
    rw [UInt32.toNat_shiftLeft, Nat.mod_eq_of_lt hk]
    show 1 <<< k.toNat % 2 ^ 32 = _
    rw [Nat.one_shiftLeft, Nat.mod_eq_of_lt (Nat.pow_lt_pow_right (by decide) hk)]
  have hand : (x &&& 1 <<< k).toNat = (x.toNat.testBit k.toNat).toNat * 2 ^ k.toNat := by
    rw [UInt32.toNat_and, hbit, Nat.and_two_pow]
  have hpos := Nat.two_pow_pos k.toNat
  rw [ne_eq, ← UInt32.toNat_inj, hand]
  cases x.toNat.testBit k.toNat with
  | false => simp
  | true => simp

theorem userEfuse_iff {spkId : UInt32} (h1 : 1 ≤ spkId.toNat) (h2 : spkId.toNat ≤ 256) :
    hw.efuse (xfsblUserEfuseAddr + (spkId - 1) / 32 * 4) &&& 1 <<< ((spkId - 1) % 32) ≠ 0 ↔
      hw.userEfuse (spkId.toNat - 1) = true := by
  have hone : (1 : UInt32).toNat = 1 := rfl
  have hsub : (spkId - 1).toNat = spkId.toNat - 1 :=
    UInt32.toNat_sub_of_le _ _ (UInt32.le_iff_toNat_le.mpr (by omega))
  have hmod : ((spkId - 1) % 32).toNat = (spkId.toNat - 1) % 32 := by rw [UInt32.toNat_mod, hsub]; rfl
  have haddr : (spkId - 1) / 32 * 4 = .ofNat ((spkId.toNat - 1) / 32 * 4) := by
    apply UInt32.toNat_inj.1
    rw [UInt32.toNat_mul, UInt32.toNat_div, hsub, UInt32.toNat_ofNat']
    rfl
  rw [and_shiftLeft_ne_zero _ _ (by omega), hmod, haddr]
  rfl

theorem spkRevocation_iff {sel : UInt8} {spkId : UInt32} (hen : hw.efuse efuseSecCtrl &&& efuseSecCtrlRsaEnMask ≠ 0)
    (hsel : sel = xfsblSpkidEfuse ∨ sel = xfsblUserEfuse) :
    spkRevocation hw sel spkId = xfsblSuccess ↔ SpkAllowed hw sel spkId := by
  have hne : xfsblUserEfuse ≠ xfsblSpkidEfuse := by decide
  unfold spkRevocation SpkAllowed
  rw [if_pos hen]
  rcases hsel with rfl | rfl
  · rw [if_pos rfl]
    split
    next h => exact iff_of_false (by decide) fun hor => hor.elim (fun h' => h h'.2) fun h' => hne h'.1.symm
    next h => exact iff_of_true rfl (.inl ⟨rfl, not_not.1 h⟩)
  · rw [if_neg hne, if_pos rfl]
    have hbounds : spkId ≥ 1 ∧ spkId ≤ 256 ↔ 1 ≤ spkId.toNat ∧ spkId.toNat ≤ 256 :=
      and_congr UInt32.le_iff_toNat_le UInt32.le_iff_toNat_le
    by_cases hrange : 1 ≤ spkId.toNat ∧ spkId.toNat ≤ 256
    · rw [if_pos (hbounds.2 hrange)]
      have hbit := @userEfuse_iff hw spkId hrange.1 hrange.2
      split
      next h =>
        refine iff_of_false (by decide) fun hor => hor.elim (fun h' => hne h'.1) fun h' => ?_
        rw [hbit.1 h] at h'
        exact Bool.noConfusion h'.2.2.2
      next h =>
        refine iff_of_true rfl (.inr ⟨rfl, hrange.1, hrange.2, ?_⟩)
        exact Bool.eq_false_iff.2 fun h' => h (hbit.2 h')
    · rw [if_neg fun h => hrange (hbounds.1 h)]
      exact iff_of_false (by decide) fun hor =>
        hor.elim (fun h' => hne h'.1) fun h' => hrange ⟨h'.2.1, h'.2.2.1⟩

end Efuse

end MeasuredBoot.Auth
