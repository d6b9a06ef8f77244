import MeasuredBoot.Measure
import MeasuredBoot.Lib.Blocks
import Mathlib.Data.UInt
import Mathlib.Logic.Function.Basic

/-!
# The SHA3 driver (`xsecure_sha.c`)

The engine takes blocks of 104 bytes. `XSecure_Sha3DataUpdate` sends what is there in whole blocks and keeps
the rest in `PartialData`, where the next update and the padding continue it; a piece of memory that is not
aligned for the DMA goes through `PartialData` as well. A failed operation puts the engine under
reset, and the next one then fails an assertion, which does not return.
-/

namespace MeasuredBoot.Csu

open Prog

/-! ## The engine -/

/-- `XSecure_Sha3State`. -/
inductive Sha3State where
  | uninitialized
  | initialized
  | engineStarted
  deriving DecidableEq

/-- `XSecure_Sha3PadType`. -/
inductive Sha3PadType where
  | nist
  | keccak
  deriving DecidableEq

/-- `XSecure_Sha3`. -/
structure Sha3 where
  sha3State : Sha3State
  sha3PadType : Sha3PadType
  sha3Len : UInt32
  partialLen : UInt32
  isLastUpdate : Bool
  partialData : Mem

/-- What the hardware answers, each time it is asked. -/
structure ShaHw where
  /-- `XSecure_CryptoCheck`. -/
  cryptoCheck : Nat → UInt32
  /-- `XSecure_SssSha`, which reads its register back. -/
  sssSha : Nat → UInt32
  /-- `XCsuDma_WaitForDoneTimeout`. -/
  dmaWaitForDone : Nat → UInt32
  /-- `XSecure_Sha3WaitForDone`. -/
  sha3WaitForDone : Nat → UInt32
  /-- The SHA3-384 engine on whole blocks, as `XSecure_Sha3_ReadHash` reads it. -/
  keccak : List UInt8 → Digest
  /-- Where the `PartialData` of the instance is. -/
  partialDataAddr : Nat
  aligned : partialDataAddr % 4 = 0

/-- `absorbed` is what the engine took since it was started, `ended` if the last transfer was marked as
the last one. `updates` are the bytes of the calls of `XSecure_Sha3Update`; no function reads them. -/
structure ShaState where
  tick : Nat
  absorbed : List UInt8
  ended : Bool
  updates : List (List UInt8)
  /-- `SecureSha3` of `xfsbl_rsa_sha.c`. -/
  secureSha3 : Sha3

abbrev ShaM := EStateM Halt ShaState

def ask (f : Nat → UInt32) : ShaM UInt32 := fun s => .ok (f s.tick) { s with tick := s.tick + 1 }

/-- `Xil_AssertNonvoid`: a failed assertion does not return. -/
def assert (p : Prop) [Decidable p] : ShaM Unit := if p then pure () else throw .hang

/-! ## Source -/

def xsecureSha3BlockLen : UInt32 := 104
def xsecureCsuDmaMaxTransfer : UInt32 := 0x1FFFFFFC

/-- `XSecure_Sha3KeccakPadd` and `XSecure_Sha3NistPadd`: zeros between the two marks. -/
def sha3Padd (start : UInt8) (partialData : Mem) (dst msgLen : Nat) : Mem :=
  let m := partialData.fill dst msgLen fun _ => 0
  let m := Function.update m dst start
  Function.update m (dst + msgLen - 1) (m (dst + msgLen - 1) ||| 0x80)

def Sha3PadType.startMask : Sha3PadType → UInt8
  | .nist => 0x06
  | .keccak => 0x01

section Driver

variable (hw : ShaHw)

def xsecureSha3Initialize (sha : Sha3) : ShaM (UInt32 × Sha3) := do
  let status ← ask hw.cryptoCheck
  if status ≠ xfsblSuccess then pure (status, sha)
  else
    pure (status, { sha with
      sha3Len := 0, sha3PadType := .nist, isLastUpdate := false, sha3State := .initialized })

def xsecureSha3PadSelection (sha : Sha3) (padType : Sha3PadType) : ShaM (UInt32 × Sha3) := do
  assert (sha.sha3State = .initialized ∨ sha.sha3State = .engineStarted)
  if sha.sha3Len ≠ 0 then pure (xfsblFailure, sha)
  else pure (xfsblSuccess, { sha with sha3PadType := padType })

def xsecureSha3Start (sha : Sha3) : ShaM Sha3 := do
  assert (sha.sha3State = .initialized)
  modify fun s => { s with absorbed := [], ended := false }
  pure { sha with
    sha3Len := 0, isLastUpdate := false, partialLen := 0, partialData := fun _ => 0,
    sha3State := .engineStarted }

/-- `size` bytes at an address, in words. -/
def xsecureSha3DmaTransfer (addr : Nat) (size : UInt32) (bytes : List UInt8) (isLast : Bool) :
    ShaM UInt32 := do
  let status ← ask hw.sssSha
  if status ≠ xfsblSuccess then pure status
  else do
    assert (addr % 4 = 0 ∧ size / 4 ≤ xcsudmaSizeMax)
    modify fun s => { s with absorbed := s.absorbed ++ bytes, ended := isLast }
    ask hw.dmaWaitForDone

/-- The variables of the loop of `XSecure_Sha3DataUpdate`. -/
structure Update where
  dataPtr : Nat
  remainingDataLen : UInt32
  prevPartialLen : UInt32
  partialData : Mem

/-- What a pass of the loop gives to the DMA, and what it leaves. -/
structure Pass where
  addr : Nat
  dmableDataLen : UInt32
  bytes : List UInt8
  dataPtr : Nat
  partialData : Mem

def nextPass (mem : Mem) (l : Update) : Pass :=
  if l.prevPartialLen ≠ 0 ∨ l.dataPtr % 4 ≠ 0 then
    let copied := xsecureSha3BlockLen - l.prevPartialLen
    let partialData := l.partialData.fill l.prevPartialLen.toNat copied.toNat fun i => mem (l.dataPtr + i)
    { addr := hw.partialDataAddr
      dmableDataLen := xsecureSha3BlockLen
      bytes := partialData.load 0 xsecureSha3BlockLen.toNat
      dataPtr := l.dataPtr + copied.toNat
      partialData }
  else
    let dmableDataLen := l.remainingDataLen - l.remainingDataLen % xsecureSha3BlockLen
    { addr := l.dataPtr
      dmableDataLen
      bytes := mem.load l.dataPtr dmableDataLen.toNat
      dataPtr := l.dataPtr + dmableDataLen.toNat
      partialData := l.partialData }

/-- A pass sends a block at least, and no more than there is. -/
theorem nextPass_len (mem : Mem) {l : Update} (h : xsecureSha3BlockLen ≤ l.remainingDataLen) :
    104 ≤ (nextPass hw mem l).dmableDataLen.toNat ∧
      (nextPass hw mem l).dmableDataLen.toNat ≤ l.remainingDataLen.toNat := by
  have hb : xsecureSha3BlockLen.toNat = 104 := rfl
  have hle : 104 ≤ l.remainingDataLen.toNat := UInt32.le_iff_toNat_le.mp h
  unfold nextPass
  split
  · exact ⟨Nat.le_refl _, hle⟩
  · have hmod : (l.remainingDataLen % xsecureSha3BlockLen).toNat = l.remainingDataLen.toNat % 104 := by
      rw [UInt32.toNat_mod, hb]
    have hsub : l.remainingDataLen % xsecureSha3BlockLen ≤ l.remainingDataLen := by
      rw [UInt32.le_iff_toNat_le, hmod]
      exact Nat.mod_le _ _
    show 104 ≤ (l.remainingDataLen - l.remainingDataLen % xsecureSha3BlockLen).toNat ∧ _
    rw [UInt32.toNat_sub_of_le _ _ hsub, hmod]
    omega

def dataUpdateLoop (mem : Mem) (isLastUpdate : Bool) (l : Update) : ShaM (UInt32 × Update) :=
  if xsecureSha3BlockLen ≤ l.remainingDataLen then do
    let p := nextPass hw mem l
    let remaining := l.remainingDataLen - p.dmableDataLen
    let status ← xsecureSha3DmaTransfer hw p.addr p.dmableDataLen p.bytes (remaining == 0 && isLastUpdate)
    if status ≠ xfsblSuccess then pure (status, { l with partialData := fun _ => 0 })
    else dataUpdateLoop mem isLastUpdate ⟨p.dataPtr, remaining, 0, p.partialData⟩
  else pure (xfsblSuccess, l)
termination_by l.remainingDataLen.toNat
decreasing_by
  rename_i h
  have hlen := nextPass_len hw mem h
  have hle : (nextPass hw mem l).dmableDataLen ≤ l.remainingDataLen := UInt32.le_iff_toNat_le.mpr hlen.2
  show (l.remainingDataLen - (nextPass hw mem l).dmableDataLen).toNat < _
  rw [UInt32.toNat_sub_of_le _ _ hle]
  omega

def xsecureSha3DataUpdate (sha : Sha3) (mem : Mem) (data : Nat) (size : UInt32) (isLastUpdate : Bool) :
    ShaM (UInt32 × Sha3) := do
  assert (sha.sha3State = .engineStarted)
  let r ← dataUpdateLoop hw mem isLastUpdate ⟨data, size + sha.partialLen, sha.partialLen, sha.partialData⟩
  let l := r.2
  if r.1 ≠ xfsblSuccess then pure (r.1, { sha with partialData := l.partialData })
  else
    let kept := l.remainingDataLen
    let partialData :=
      if kept > 0 then
        l.partialData.fill l.prevPartialLen.toNat (kept - l.prevPartialLen).toNat fun i => mem (l.dataPtr + i)
      else l.partialData
    pure (xfsblSuccess, { sha with
      partialLen := kept
      partialData := partialData.fill kept.toNat (104 - kept.toNat) fun _ => 0 })

/-- The transfers of `XSECURE_CSU_DMA_MAX_TRANSFER` bytes, and the last one. -/
def updateLoop (sha : Sha3) (mem : Mem) (data : Nat) (dataSize : UInt32) : ShaM (UInt32 × Sha3) :=
  if dataSize > xsecureCsuDmaMaxTransfer then do
    let r ← xsecureSha3DataUpdate hw sha mem data xsecureCsuDmaMaxTransfer false
    if r.1 ≠ xfsblSuccess then pure r
    else updateLoop r.2 mem (data + xsecureCsuDmaMaxTransfer.toNat) (dataSize - xsecureCsuDmaMaxTransfer)
  else xsecureSha3DataUpdate hw sha mem data dataSize sha.isLastUpdate
termination_by dataSize.toNat
decreasing_by
  rename_i h _
  have hlt : xsecureCsuDmaMaxTransfer.toNat < dataSize.toNat := UInt32.lt_iff_toNat_lt.mp h
  have hpos : 0 < xsecureCsuDmaMaxTransfer.toNat := by decide
  rw [UInt32.toNat_sub_of_le _ _ (UInt32.le_iff_toNat_le.mpr (Nat.le_of_lt hlt))]
  omega

def xsecureSha3Update (sha : Sha3) (mem : Mem) (data : Nat) (size : UInt32) : ShaM (UInt32 × Sha3) := do
  modify fun s => { s with updates := s.updates ++ [mem.load data size.toNat] }
  assert (sha.sha3State = .engineStarted)
  let r ← updateLoop hw { sha with sha3Len := sha.sha3Len + size } mem data size
  if r.1 ≠ xfsblSuccess then pure (r.1, { r.2 with sha3State := .initialized })
  else pure r

def padLen (sha3Len : UInt32) : UInt32 :=
  if sha3Len % xsecureSha3BlockLen = 0 then xsecureSha3BlockLen
  else xsecureSha3BlockLen - sha3Len % xsecureSha3BlockLen

theorem toNat_padLen (n : UInt32) : (padLen n).toNat = 104 - n.toNat % 104 := by
  have hb : xsecureSha3BlockLen.toNat = 104 := rfl
  have hmod : (n % xsecureSha3BlockLen).toNat = n.toNat % 104 := by rw [UInt32.toNat_mod, hb]
  unfold padLen
  split
  next hzero =>
    rw [hzero] at hmod
    rw [hb, ← hmod]
    rfl
  next =>
    rw [UInt32.toNat_sub_of_le, hmod, hb]
    rw [UInt32.le_iff_toNat_le, hmod, hb]
    omega

/-- What is left of a message, padded to a block; nothing where the caller said it padded it. -/
def finishTransfer (sha : Sha3) : ShaM (UInt32 × UInt32 × Mem) := do
  if sha.isLastUpdate then
    pure (if sha.partialLen ≠ 0 then xfsblFailure else xfsblSuccess, sha.partialLen, sha.partialData)
  else do
    let partialData :=
      sha3Padd sha.sha3PadType.startMask sha.partialData sha.partialLen.toNat (padLen sha.sha3Len).toNat
    let size := padLen sha.sha3Len + sha.partialLen
    let status ← xsecureSha3DmaTransfer hw hw.partialDataAddr size (partialData.load 0 size.toNat) true
    pure (status, size, partialData)

/-- The hash is read only behind the `DONE` bit. -/
def xsecureSha3Finish (sha : Sha3) (hash : Digest) : ShaM (UInt32 × Digest × Sha3) := do
  assert (sha.sha3State = .engineStarted)
  let (status, size, partialData) ← finishTransfer hw sha
  let sha := { sha with
    partialData := partialData.fill 0 size.toNat fun _ => 0
    sha3State := .initialized }
  if status ≠ xfsblSuccess then pure (status, hash, sha)
  else do
    let status ← ask hw.sha3WaitForDone
    let s ← get
    pure (status, if status ≠ xfsblSuccess then hash else hw.keccak s.absorbed, sha)

end Driver

/-! ## What the primitives do -/

section Primitives

variable {hw : ShaHw} {s t : ShaState} {sha sha' : Sha3} {status : UInt32} {u : Unit}

theorem assert_ok {p : Prop} [Decidable p] : assert p s = .ok u t ↔ p ∧ s = t := by
  unfold assert
  split
  next h => simp [h]
  next h => simp [h]

theorem ask_ok {f : Nat → UInt32} : ask f s = .ok status t ↔ f s.tick = status ∧ { s with tick := s.tick + 1 } = t := by
  unfold ask
  simp

/-- The history and the instance of the caller stay. -/
structure Keeps (s t : ShaState) : Prop where
  updates : t.updates = s.updates
  secureSha3 : t.secureSha3 = s.secureSha3

instance : IsPreorder ShaState Keeps where
  refl _ := ⟨rfl, rfl⟩
  trans _ _ _ h h' := ⟨h'.updates.trans h.updates, h'.secureSha3.trans h.secureSha3⟩

theorem keeps_ask (f : Nat → UInt32) : Frame Keeps (ask f) := fun _ => ⟨rfl, rfl⟩

theorem keeps_assert (p : Prop) [Decidable p] : Frame Keeps (assert p) :=
  frame_ite (fun _ => frame_pure _) fun _ => frame_throw _

theorem keeps_initialized (sha : Sha3) : Frame Keeps (xsecureSha3Initialize hw sha) :=
  frame_bind (keeps_ask _) fun _ => frame_ite (fun _ => frame_pure _) fun _ => frame_pure _

theorem keeps_padSelection (sha : Sha3) (padType : Sha3PadType) :
    Frame Keeps (xsecureSha3PadSelection sha padType) :=
  frame_bind (keeps_assert _) fun _ => frame_ite (fun _ => frame_pure _) fun _ => frame_pure _

theorem keeps_start (sha : Sha3) : Frame Keeps (xsecureSha3Start sha) :=
  frame_bind (keeps_assert _) fun _ => frame_bind (frame_modify fun _ => ⟨rfl, rfl⟩) fun _ => frame_pure _

theorem keeps_dmaTransfer (addr : Nat) (size : UInt32) (bytes : List UInt8) (isLast : Bool) :
    Frame Keeps (xsecureSha3DmaTransfer hw addr size bytes isLast) := by
  refine frame_bind (keeps_ask _) fun _ => frame_ite (fun _ => frame_pure _) fun _ => ?_
  exact frame_bind (keeps_assert _) fun _ => frame_bind (frame_modify fun _ => ⟨rfl, rfl⟩) fun _ => keeps_ask _

theorem keeps_dataUpdateLoop (mem : Mem) (isLast : Bool) (l : Update) :
    Frame Keeps (dataUpdateLoop hw mem isLast l) := by
  induction l using dataUpdateLoop.induct hw mem with
  | case1 l h p remaining ih =>
    rw [dataUpdateLoop, if_pos h]
    exact frame_bind (keeps_dmaTransfer _ _ _ _) fun _ => frame_ite (fun _ => frame_pure _) fun _ => ih
  | case2 l h =>
    rw [dataUpdateLoop, if_neg h]
    exact frame_pure _

theorem keeps_dataUpdate (sha : Sha3) (mem : Mem) (data : Nat) (size : UInt32) (isLast : Bool) :
    Frame Keeps (xsecureSha3DataUpdate hw sha mem data size isLast) := by
  refine frame_bind (keeps_assert _) fun _ => frame_bind (keeps_dataUpdateLoop _ _ _) fun _ => ?_
  exact frame_ite (fun _ => frame_pure _) fun _ => frame_pure _

theorem keeps_updateLoop (sha : Sha3) (mem : Mem) (data : Nat) (size : UInt32) :
    Frame Keeps (updateLoop hw sha mem data size) := by
  induction sha, data, size using updateLoop.induct with
  | case1 sha data size h ih =>
    rw [updateLoop, if_pos h]
    exact frame_bind (keeps_dataUpdate _ _ _ _ _) fun r => frame_ite (fun _ => frame_pure _) fun _ => ih r
  | case2 sha data size h =>
    rw [updateLoop, if_neg h]
    exact keeps_dataUpdate _ _ _ _ _

theorem keeps_finish (sha : Sha3) (hash : Digest) : Frame Keeps (xsecureSha3Finish hw sha hash) := by
  refine frame_bind (keeps_assert _) fun _ => frame_bind ?_ fun _ => ?_
  · refine frame_ite (fun _ => frame_pure _) fun _ => ?_
    exact frame_bind (keeps_dmaTransfer _ _ _ _) fun _ => frame_pure _
  · refine frame_ite (fun _ => frame_pure _) fun _ => ?_
    exact frame_bind (keeps_ask _) fun _ => frame_bind frame_get fun _ => frame_pure _

end Primitives

/-! ## Blocks -/

/-- What a loop of updates has before it: the kept bytes, and those in memory. -/
def Update.pending (l : Update) (mem : Mem) : List UInt8 :=
  l.partialData.load 0 l.prevPartialLen.toNat ++
    mem.load l.dataPtr (l.remainingDataLen.toNat - l.prevPartialLen.toNat)

/-- The kept bytes are a part of a block, and of what is left. -/
structure Update.Fits (l : Update) : Prop where
  block : l.prevPartialLen.toNat < 104
  left : l.prevPartialLen.toNat ≤ l.remainingDataLen.toNat

section Blocks

variable {hw : ShaHw} {mem : Mem} {s t : ShaState} {l l' : Update} {status : UInt32} {isLast : Bool}

/-- A pass sends the beginning of what is pending, in whole blocks. -/
theorem nextPass_bytes (hw : ShaHw) (mem : Mem) (hf : l.Fits) (h : xsecureSha3BlockLen ≤ l.remainingDataLen) :
    104 ∣ (nextPass hw mem l).bytes.length ∧
      (nextPass hw mem l).bytes ++ mem.load (nextPass hw mem l).dataPtr
        (l.remainingDataLen.toNat - (nextPass hw mem l).dmableDataLen.toNat) = l.pending mem := by
  obtain ⟨hblock, hleft⟩ := hf
  have hle : 104 ≤ l.remainingDataLen.toNat := UInt32.le_iff_toNat_le.mp h
  have hb : xsecureSha3BlockLen.toNat = 104 := rfl
  unfold nextPass Update.pending
  split
  next hpart =>
    have hcopied : (xsecureSha3BlockLen - l.prevPartialLen).toNat = 104 - l.prevPartialLen.toNat :=
      UInt32.toNat_sub_of_le _ _ (UInt32.le_iff_toNat_le.mpr (by omega))
    obtain ⟨k, hk⟩ : ∃ k, 104 - l.prevPartialLen.toNat = k := ⟨_, rfl⟩
    have hsum : 104 = l.prevPartialLen.toNat + k := by omega
    have hrest : l.remainingDataLen.toNat - l.prevPartialLen.toNat = k + (l.remainingDataLen.toNat - 104) := by
      omega
    refine ⟨by rw [Mem.length_load, hb], ?_⟩
    show Mem.load _ 0 xsecureSha3BlockLen.toNat ++ mem.load (l.dataPtr + (xsecureSha3BlockLen - _).toNat) _ = _
    rw [hcopied, hk, hb, hrest, Mem.load_add mem, ← List.append_assoc]
    conv_lhs => rw [hsum, Mem.load_fill_end, Mem.load_shift, Nat.add_zero, ← hsum]
  next hwhole =>
    rw [not_or, not_not] at hwhole
    have hzero : l.prevPartialLen.toNat = 0 := by rw [hwhole.1]; rfl
    have hmod : (l.remainingDataLen % xsecureSha3BlockLen).toNat = l.remainingDataLen.toNat % 104 := by
      rw [UInt32.toNat_mod, hb]
    have hsub : (l.remainingDataLen - l.remainingDataLen % xsecureSha3BlockLen).toNat =
        l.remainingDataLen.toNat - l.remainingDataLen.toNat % 104 := by
      rw [UInt32.toNat_sub_of_le, hmod]
      rw [UInt32.le_iff_toNat_le, hmod]
      exact Nat.mod_le _ _
    refine ⟨?_, ?_⟩
    · rw [Mem.length_load, hsub]
      omega
    · show mem.load l.dataPtr _ ++ mem.load (l.dataPtr + _) _ = _
      rw [← Mem.load_add, hsub, hzero]
      show _ = [] ++ mem.load l.dataPtr _
      rw [List.nil_append]
      congr 1
      have := Nat.mod_le l.remainingDataLen.toNat 104
      omega

theorem dmaTransfer_absorbed {addr : Nat} {size : UInt32} {bytes : List UInt8}
    (h : xsecureSha3DmaTransfer hw addr size bytes isLast s = .ok xfsblSuccess t) :
    t.absorbed = s.absorbed ++ bytes := by
  obtain ⟨status, s1, h1, h⟩ := bind_ok.1 h
  obtain ⟨rfl, rfl⟩ := ask_ok.1 h1
  split at h
  next hne =>
    obtain ⟨heq, -⟩ := pure_ok.1 h
    exact absurd heq hne
  next =>
    obtain ⟨_, s2, h2, h⟩ := bind_ok.1 h
    obtain ⟨-, rfl⟩ := assert_ok.1 h2
    obtain ⟨_, s3, h3, h⟩ := bind_ok.1 h
    obtain rfl := modify_ok.1 h3
    obtain ⟨-, rfl⟩ := ask_ok.1 h
    rfl

/-- A loop that succeeds sends whole blocks of what is pending, and leaves less than a block. -/
theorem dataUpdateLoop_ok (hf : l.Fits)
    (h : dataUpdateLoop hw mem isLast l s = .ok (xfsblSuccess, l') t) :
    l'.remainingDataLen.toNat < 104 ∧ l'.Fits ∧
      ∃ q, t.absorbed = s.absorbed ++ q ∧ 104 ∣ q.length ∧ q ++ l'.pending mem = l.pending mem := by
  have hb : xsecureSha3BlockLen.toNat = 104 := rfl
  induction l using dataUpdateLoop.induct hw mem generalizing s with
  | case1 l hle p remaining =>
    rename_i ih
    rw [dataUpdateLoop, if_pos hle] at h
    obtain ⟨status, s1, h1, h⟩ := bind_ok.1 h
    split at h
    next hne =>
      obtain ⟨heq, -⟩ := pure_ok.1 h
      exact absurd (congrArg Prod.fst heq) hne
    next hsucc =>
      obtain rfl := not_not.1 hsucc
      have hlen := nextPass_len hw mem hle
      have hrem : remaining.toNat = l.remainingDataLen.toNat - p.dmableDataLen.toNat :=
        UInt32.toNat_sub_of_le _ _ (UInt32.le_iff_toNat_le.mpr hlen.2)
      obtain ⟨hdvd, hsplit⟩ := nextPass_bytes hw mem hf hle
      obtain ⟨hlt, hf', q, hq, hq104, hpend⟩ := ih ⟨Nat.zero_lt_succ 103, Nat.zero_le _⟩ h
      refine ⟨hlt, hf', p.bytes ++ q, ?_, ?_, ?_⟩
      · rw [hq, dmaTransfer_absorbed h1, List.append_assoc]
      · rw [List.length_append]
        exact Nat.dvd_add hdvd hq104
      · rw [List.append_assoc, hpend, ← hsplit]
        show p.bytes ++ ([] ++ mem.load p.dataPtr (remaining.toNat - 0)) = _
        rw [List.nil_append, Nat.sub_zero, hrem]
  | case2 l hle =>
    rw [dataUpdateLoop, if_neg hle] at h
    obtain ⟨heq, rfl⟩ := pure_ok.1 h
    obtain rfl : l = l' := congrArg Prod.snd heq
    refine ⟨?_, hf, [], (List.append_nil _).symm, Nat.dvd_zero _, List.nil_append _⟩
    have := UInt32.lt_iff_toNat_lt.mp (UInt32.not_le.mp hle)
    omega

/-- The bytes kept behind the loop. -/
theorem load_kept (mem : Mem) (hf : l.Fits) :
    Mem.load ((if l.remainingDataLen > 0 then
        l.partialData.fill l.prevPartialLen.toNat (l.remainingDataLen - l.prevPartialLen).toNat
          fun i => mem (l.dataPtr + i)
      else l.partialData).fill l.remainingDataLen.toNat (104 - l.remainingDataLen.toNat) fun _ => 0)
      0 l.remainingDataLen.toNat = l.pending mem := by
  rw [Mem.load_fill_disj (.inl (by omega))]
  unfold Update.pending
  have hleft := hf.left
  split
  · have hsub : (l.remainingDataLen - l.prevPartialLen).toNat =
        l.remainingDataLen.toNat - l.prevPartialLen.toNat :=
      UInt32.toNat_sub_of_le _ _ (UInt32.le_iff_toNat_le.mpr hleft)
    have hsum : l.remainingDataLen.toNat =
        l.prevPartialLen.toNat + (l.remainingDataLen.toNat - l.prevPartialLen.toNat) := by omega
    rw [hsub]
    conv_lhs => rw [hsum, Nat.add_sub_cancel_left, Mem.load_fill_end, Mem.load_shift, Nat.add_zero]
  next hzero =>
    have hrem : l.remainingDataLen.toNat = 0 := by
      have := UInt32.le_iff_toNat_le.mp (UInt32.not_lt.mp hzero)
      exact Nat.le_zero.1 this
    have hprev : l.prevPartialLen.toNat = 0 := by omega
    rw [hrem, hprev]
    rfl

end Blocks

/-- The engine and the instance hold the bytes of a message so far. -/
def Fed (s : ShaState) (sha : Sha3) (message : List UInt8) : Prop :=
  ∃ b : Buffered UInt8 104, b.all = message ∧ s.absorbed = b.taken ∧
    sha.partialLen.toNat = b.held.length ∧ sha.partialData.load 0 sha.partialLen.toNat = b.held

/-- Another instance of the same hash. -/
def Sha3.Same (sha sha' : Sha3) : Prop :=
  sha' = { sha with partialLen := sha'.partialLen, partialData := sha'.partialData }

theorem Sha3.Same.trans {sha sha' sha'' : Sha3} (h : sha.Same sha') (h' : sha'.Same sha'') :
    sha.Same sha'' := by
  unfold Same at *
  rw [h', h]

section Feeding

variable {hw : ShaHw} {mem : Mem} {s t : ShaState} {sha sha' : Sha3} {message : List UInt8} {data : Nat}
  {size status : UInt32} {isLast : Bool}

theorem dataUpdate_ok (hfed : Fed s sha message) (hsize : size.toNat ≤ xsecureCsuDmaMaxTransfer.toNat)
    (h : xsecureSha3DataUpdate hw sha mem data size isLast s = .ok (xfsblSuccess, sha') t) :
    Fed t sha' (message ++ mem.load data size.toNat) ∧ sha.Same sha' := by
  obtain ⟨b, rfl, habs, hlen, hheld⟩ := hfed
  have hmax : xsecureCsuDmaMaxTransfer.toNat = 0x1FFFFFFC := rfl
  have hlt := b.held_lt
  obtain ⟨_, s1, h1, h⟩ := bind_ok.1 h
  obtain ⟨-, rfl⟩ := assert_ok.1 h1
  obtain ⟨⟨status, l'⟩, s2, hloop, h⟩ := bind_ok.1 h
  have hrem : (size + sha.partialLen).toNat = size.toNat + sha.partialLen.toNat := by
    rw [UInt32.toNat_add, Nat.mod_eq_of_lt (by omega)]
  dsimp only at h
  split at h
  next hne =>
    obtain ⟨heq, -⟩ := pure_ok.1 h
    exact absurd (congrArg Prod.fst heq) hne
  next hsucc =>
    obtain rfl := not_not.1 hsucc
    obtain ⟨heq, rfl⟩ := pure_ok.1 h
    have hfits : Update.Fits ⟨data, size + sha.partialLen, sha.partialLen, sha.partialData⟩ :=
      ⟨by rw [hlen]; exact hlt, by rw [hrem]; exact Nat.le_add_left _ _⟩
    obtain ⟨hless, hfits', q, hq, hq104, hpend⟩ := dataUpdateLoop_ok hfits hloop
    have hstart : Update.pending ⟨data, size + sha.partialLen, sha.partialLen, sha.partialData⟩ mem =
        b.held ++ mem.load data size.toNat := by
      unfold Update.pending
      rw [hheld, hrem, Nat.add_sub_cancel]
    have hkept := load_kept mem hfits'
    have hlen' : (l'.pending mem).length = l'.remainingDataLen.toNat := by
      rw [← hkept, Mem.length_load]
    obtain ⟨htaken, hheld'⟩ := b.feed_of_split (hpend.trans hstart) hq104 (by omega)
    obtain rfl := congrArg Prod.snd heq
    refine ⟨⟨b.feed (mem.load data size.toNat), b.all_feed _, ?_, ?_, ?_⟩, rfl⟩
    · rw [hq, habs, htaken]
    · rw [hheld', hlen']
    · rw [hheld']
      exact hkept

theorem updateLoop_ok (hfed : Fed s sha message)
    (h : updateLoop hw sha mem data size s = .ok (xfsblSuccess, sha') t) :
    Fed t sha' (message ++ mem.load data size.toNat) ∧ sha.Same sha' := by
  induction sha, data, size using updateLoop.induct generalizing s message with
  | case1 sha data size hbig ih =>
    have hlt : xsecureCsuDmaMaxTransfer.toNat < size.toNat := UInt32.lt_iff_toNat_lt.mp hbig
    rw [updateLoop, if_pos hbig] at h
    obtain ⟨⟨status, sha1⟩, s1, h1, h⟩ := bind_ok.1 h
    dsimp only at h
    split at h
    next hne =>
      obtain ⟨heq, -⟩ := pure_ok.1 h
      exact absurd (congrArg Prod.fst heq) hne
    next hsucc =>
      obtain rfl := not_not.1 hsucc
      obtain ⟨hfed1, hsame1⟩ := dataUpdate_ok hfed (Nat.le_refl _) h1
      obtain ⟨hfed2, hsame2⟩ := ih (xfsblSuccess, sha1) hfed1 h
      refine ⟨?_, hsame1.trans hsame2⟩
      rw [List.append_assoc, ← Mem.load_add, UInt32.toNat_sub_of_le _ _
        (UInt32.le_iff_toNat_le.mpr (Nat.le_of_lt hlt)), Nat.add_sub_cancel' (Nat.le_of_lt hlt)] at hfed2
      exact hfed2
  | case2 sha data size hsmall =>
    rw [updateLoop, if_neg hsmall] at h
    exact dataUpdate_ok hfed (UInt32.le_iff_toNat_le.mp (UInt32.not_lt.mp hsmall)) h

/-- An update that succeeds is the bytes of its piece. -/
theorem update_ok (hfed : Fed s sha message)
    (h : xsecureSha3Update hw sha mem data size s = .ok (xfsblSuccess, sha') t) :
    Fed t sha' (message ++ mem.load data size.toNat) ∧
      { sha with sha3Len := sha.sha3Len + size }.Same sha' := by
  obtain ⟨_, s1, h1, h⟩ := bind_ok.1 h
  obtain rfl := modify_ok.1 h1
  obtain ⟨_, s2, h2, h⟩ := bind_ok.1 h
  obtain ⟨-, rfl⟩ := assert_ok.1 h2
  obtain ⟨⟨status, sha1⟩, s3, hloop, h⟩ := bind_ok.1 h
  dsimp only at h
  split at h
  next hne =>
    obtain ⟨heq, -⟩ := pure_ok.1 h
    exact absurd (congrArg Prod.fst heq) hne
  next hsucc =>
    obtain rfl := not_not.1 hsucc
    obtain ⟨heq, rfl⟩ := pure_ok.1 h
    obtain rfl := congrArg Prod.snd heq
    have hfed' : Fed { s with updates := s.updates ++ [mem.load data size.toNat] }
        { sha with sha3Len := sha.sha3Len + size } message := hfed
    exact updateLoop_ok hfed' hloop

/-- One that fails puts the engine under reset. -/
theorem update_fails (h : xsecureSha3Update hw sha mem data size s = .ok (status, sha') t)
    (hne : status ≠ xfsblSuccess) : sha'.sha3State = .initialized := by
  obtain ⟨_, s1, -, h⟩ := bind_ok.1 h
  obtain ⟨_, s2, -, h⟩ := bind_ok.1 h
  obtain ⟨⟨status', sha1⟩, s3, -, h⟩ := bind_ok.1 h
  dsimp only at h
  split at h
  · obtain ⟨heq, -⟩ := pure_ok.1 h
    have hsha := congrArg Prod.snd heq
    dsimp only at hsha
    rw [← hsha]
  next hsucc =>
    obtain ⟨heq, -⟩ := pure_ok.1 h
    exact absurd ((congrArg Prod.fst heq).symm.trans (not_not.1 hsucc)) hne

end Feeding

/-! ## The padding -/

/-- The padding of a message of `n` bytes. -/
def Sha3PadType.pad (padType : Sha3PadType) (n : Nat) : List UInt8 :=
  if 104 - n % 104 = 1 then [padType.startMask ||| 0x80]
  else padType.startMask :: List.replicate (102 - n % 104) 0 ++ [0x80]

theorem pad_nist (n : Nat) : Sha3PadType.nist.pad n = nistPad n := rfl

theorem load_const (b : UInt8) (m : Mem) {a n : Nat} (h : ∀ x, a ≤ x → x < a + n → m x = b) :
    m.load a n = List.replicate n b := by
  induction n generalizing a with
  | zero => rfl
  | succ n ih =>
    rw [Mem.load_succ, h a (Nat.le_refl _) (by omega), ih fun x h1 h2 => h x (by omega) (by omega)]
    rfl

theorem padd_apply (start : UInt8) (m : Mem) (dst msgLen x : Nat) :
    sha3Padd start m dst msgLen x =
      if x = dst + msgLen - 1 then
        (if dst + msgLen - 1 = dst then start else m.fill dst msgLen (fun _ => 0) (dst + msgLen - 1)) ||| 0x80
      else if x = dst then start else m.fill dst msgLen (fun _ => 0) x := by
  simp only [sha3Padd, Function.update_apply]

/-- The padding as it lies behind the kept bytes. -/
theorem load_padd (padType : Sha3PadType) (m : Mem) {k : Nat} (hk : k < 104) :
    (sha3Padd padType.startMask m k (104 - k)).load 0 104 = m.load 0 k ++ padType.pad k := by
  have hmod : k % 104 = k := Nat.mod_eq_of_lt hk
  obtain ⟨r, hr⟩ : ∃ r, 104 - k = r := ⟨_, rfl⟩
  have hsplit : 104 = k + r := by omega
  unfold Sha3PadType.pad
  rw [hmod, hr, show 102 - k = r - 2 by omega]
  have hbelow : (sha3Padd padType.startMask m k r).load 0 k = m.load 0 k := by
    refine Mem.load_congr fun x _ hx => ?_
    rw [padd_apply, if_neg (by omega), if_neg (by omega), Mem.fill_out (by omega)]
  have hbehind : (sha3Padd padType.startMask m k r).load k r =
      if r = 1 then [padType.startMask ||| 0x80]
      else padType.startMask :: List.replicate (r - 2) 0 ++ [0x80] := by
    by_cases h1 : r = 1
    · rw [if_pos h1, h1]
      show [sha3Padd padType.startMask m k 1 k] = _
      rw [padd_apply, if_pos (by omega), if_pos (by omega)]
    · rw [if_neg h1]
      obtain ⟨j, rfl⟩ : ∃ j, r = j + 1 + 1 := ⟨r - 2, by omega⟩
      have hzeros : (sha3Padd padType.startMask m k (j + 1 + 1)).load (k + 1) j = List.replicate j 0 := by
        refine load_const 0 _ fun x h1 h2 => ?_
        rw [padd_apply, if_neg (by omega), if_neg (by omega), Mem.fill_apply, if_pos (by omega)]
      have hlast : (sha3Padd padType.startMask m k (j + 1 + 1)).load (k + 1 + j) 1 = [0x80] := by
        show [sha3Padd padType.startMask m k (j + 1 + 1) (k + 1 + j)] = _
        rw [padd_apply, if_pos (by omega), if_neg (by omega), Mem.fill_apply, if_pos (by omega)]
        rfl
      rw [Mem.load_succ, Mem.load_add, hzeros, hlast, padd_apply, if_neg (by omega), if_pos rfl]
      rfl
  calc (sha3Padd padType.startMask m k r).load 0 104
      = (sha3Padd padType.startMask m k r).load 0 (k + r) := by rw [← hsplit]
    _ = _ := by rw [Mem.load_add, hbelow, Nat.zero_add, hbehind]

/-! ## The end of a hash -/

section Finish

variable {hw : ShaHw} {s t : ShaState} {sha sha' : Sha3} {message : List UInt8} {status : UInt32}
  {hash hash' : Digest}

/-- `PartialLen` is `Sha3Len`, as far as blocks are concerned. -/
def Sha3.Counts (sha : Sha3) (message : List UInt8) : Prop :=
  sha.isLastUpdate = false ∧ sha.sha3Len.toNat % 104 = message.length % 104

theorem pad_mod (padType : Sha3PadType) (n : Nat) : padType.pad (n % 104) = padType.pad n := by
  unfold Sha3PadType.pad
  rw [Nat.mod_mod]

/-- The padding ends the block of the kept bytes. -/
theorem finish_block (hfed : Fed s sha message) (hcounts : sha.Counts message) :
    sha.partialLen.toNat = message.length % 104 ∧
      (padLen sha.sha3Len).toNat = 104 - sha.partialLen.toNat ∧
      (padLen sha.sha3Len + sha.partialLen).toNat = 104 := by
  obtain ⟨b, rfl, -, hlen, -⟩ := hfed
  have hlt := b.held_lt
  have hk : sha.partialLen.toNat = b.all.length % 104 := by
    have htaken := b.length_taken
    have hall : b.all.length = b.taken.length + b.held.length := List.length_append
    omega
  have hpad : (padLen sha.sha3Len).toNat = 104 - sha.partialLen.toNat := by
    rw [toNat_padLen, hcounts.2, hk]
  refine ⟨hk, hpad, ?_⟩
  rw [UInt32.toNat_add, hpad]
  omega

theorem finishTransfer_ok {size : UInt32} {m : Mem} (hfed : Fed s sha message)
    (hcounts : sha.Counts message) (h : finishTransfer hw sha s = .ok (xfsblSuccess, size, m) t) :
    t.absorbed = message ++ sha.sha3PadType.pad message.length := by
  obtain ⟨hk, hpad, hsize⟩ := finish_block hfed hcounts
  obtain ⟨b, rfl, habs, hlen, hheld⟩ := hfed
  have hlt : sha.partialLen.toNat < 104 := hlen ▸ b.held_lt
  unfold finishTransfer at h
  simp only [hcounts.1, Bool.false_eq_true, if_false] at h
  obtain ⟨status, s1, hdma, h⟩ := bind_ok.1 h
  obtain ⟨heq, rfl⟩ := pure_ok.1 h
  obtain rfl := congrArg Prod.fst heq
  rw [dmaTransfer_absorbed hdma, hsize, hpad, load_padd _ _ hlt, hheld, habs, ← List.append_assoc, hk,
    pad_mod]
  rfl

/-- A hash that ends leaves the digest of the message in the buffer, or what was in it. -/
theorem finish_ok (hfed : Fed s sha message) (hcounts : sha.Counts message)
    (h : xsecureSha3Finish hw sha hash s = .ok (status, hash', sha') t) :
    hash' = (if status = xfsblSuccess then hw.keccak (message ++ sha.sha3PadType.pad message.length)
      else hash) ∧ sha'.sha3State = .initialized := by
  obtain ⟨_, s1, h1, h⟩ := bind_ok.1 h
  obtain ⟨-, rfl⟩ := assert_ok.1 h1
  obtain ⟨⟨status', size, m⟩, s2, hfin, h⟩ := bind_ok.1 h
  dsimp only at h
  split at h
  next hne =>
    obtain ⟨heq, -⟩ := pure_ok.1 h
    obtain ⟨rfl, rfl, rfl⟩ := Prod.mk.injEq .. ▸ heq
    rw [if_neg hne]
    exact ⟨rfl, rfl⟩
  next hsucc =>
    obtain rfl := not_not.1 hsucc
    obtain ⟨done, s3, hask, h⟩ := bind_ok.1 h
    obtain ⟨-, rfl⟩ := ask_ok.1 hask
    obtain ⟨v, s4, hget, h⟩ := bind_ok.1 h
    obtain ⟨rfl, rfl⟩ := get_ok.1 hget
    obtain ⟨heq, -⟩ := pure_ok.1 h
    have habs := finishTransfer_ok hfed hcounts hfin
    obtain ⟨rfl, rfl, rfl⟩ := Prod.mk.injEq .. ▸ heq
    rw [habs, ite_not]
    exact ⟨rfl, rfl⟩

end Finish

/-! ## An engine that works -/

/-- No operation of the engine fails. -/
structure ShaHw.Works (hw : ShaHw) : Prop where
  cryptoCheck : ∀ n, hw.cryptoCheck n = xfsblSuccess
  sssSha : ∀ n, hw.sssSha n = xfsblSuccess
  dmaWaitForDone : ∀ n, hw.dmaWaitForDone n = xfsblSuccess
  sha3WaitForDone : ∀ n, hw.sha3WaitForDone n = xfsblSuccess

section Works

variable {hw : ShaHw} {s : ShaState} {sha : Sha3} {message : List UInt8} {l : Update} {size : UInt32}

theorem ShaHw.Works.dmaTransfer (h : hw.Works) {addr : Nat} (bytes : List UInt8) (isLast : Bool)
    (haddr : addr % 4 = 0) (hsize : size.toNat ≤ xsecureCsuDmaMaxTransfer.toNat) (s : ShaState) :
    ∃ t, xsecureSha3DmaTransfer hw addr size bytes isLast s = .ok xfsblSuccess t := by
  have hwords : size / 4 ≤ xcsudmaSizeMax := by
    have hmax : xsecureCsuDmaMaxTransfer.toNat = 0x1FFFFFFC := rfl
    have hwmax : xcsudmaSizeMax.toNat = 0x07FFFFFF := rfl
    rw [UInt32.le_iff_toNat_le, UInt32.toNat_div, show (4 : UInt32).toNat = 4 from rfl]
    omega
  refine ⟨{ s with tick := s.tick + 1 + 1, absorbed := s.absorbed ++ bytes, ended := isLast },
    bind_ok.2 ⟨_, _, ask_ok.2 ⟨h.sssSha _, rfl⟩, ?_⟩⟩
  rw [if_neg (not_not.2 rfl)]
  exact bind_ok.2 ⟨(), _, assert_ok.2 ⟨⟨haddr, hwords⟩, rfl⟩,
    bind_ok.2 ⟨(), _, rfl, ask_ok.2 ⟨h.dmaWaitForDone _, rfl⟩⟩⟩

/-- Behind the first pass nothing is kept, and what is left can be sent at once. -/
theorem ShaHw.Works.dataUpdateLoop (h : hw.Works) (mem : Mem) (isLast : Bool) (hf : l.Fits)
    (hzero : l.prevPartialLen = 0 → l.remainingDataLen.toNat ≤ xsecureCsuDmaMaxTransfer.toNat)
    (hle : l.remainingDataLen.toNat ≤ xsecureCsuDmaMaxTransfer.toNat + 103) (s : ShaState) :
    ∃ l' t, dataUpdateLoop hw mem isLast l s = .ok (xfsblSuccess, l') t := by
  have hmax : xsecureCsuDmaMaxTransfer.toNat = 0x1FFFFFFC := rfl
  induction l using dataUpdateLoop.induct hw mem generalizing s with
  | case1 l hblock p remaining =>
    rename_i ih
    have hlen : 104 ≤ p.dmableDataLen.toNat ∧ p.dmableDataLen.toNat ≤ l.remainingDataLen.toNat :=
      nextPass_len hw mem hblock
    have hrem : remaining.toNat = l.remainingDataLen.toNat - p.dmableDataLen.toNat :=
      UInt32.toNat_sub_of_le _ _ (UInt32.le_iff_toNat_le.mpr hlen.2)
    have hpass : p.addr % 4 = 0 ∧ p.dmableDataLen.toNat ≤ xsecureCsuDmaMaxTransfer.toNat := by
      rcases Decidable.em (l.prevPartialLen ≠ 0 ∨ l.dataPtr % 4 ≠ 0) with hc | hc
      · have hp : p.addr = hw.partialDataAddr ∧ p.dmableDataLen = xsecureSha3BlockLen := by
          show (nextPass hw mem l).addr = _ ∧ (nextPass hw mem l).dmableDataLen = _
          unfold nextPass
          rw [if_pos hc]
          exact ⟨rfl, rfl⟩
        rw [hp.1, hp.2]
        exact ⟨hw.aligned, by decide⟩
      · have hp : p.addr = l.dataPtr := by
          show (nextPass hw mem l).addr = _
          unfold nextPass
          rw [if_neg hc]
        rw [not_or, not_not, not_not] at hc
        rw [hp]
        exact ⟨hc.2, Nat.le_trans hlen.2 (hzero hc.1)⟩
    obtain ⟨t, hdma⟩ := h.dmaTransfer p.bytes (remaining == 0 && isLast) hpass.1 hpass.2 s
    obtain ⟨l', t', hloop⟩ := ih ⟨Nat.zero_lt_succ 103, Nat.zero_le _⟩
      (fun _ => by show remaining.toNat ≤ _; omega) (by show remaining.toNat ≤ _; omega) t
    refine ⟨l', t', ?_⟩
    rw [Csu.dataUpdateLoop, if_pos hblock]
    exact bind_ok.2 ⟨_, t, hdma, hloop⟩
  | case2 l hblock =>
    rw [Csu.dataUpdateLoop, if_neg hblock]
    exact ⟨l, s, rfl⟩

theorem ShaHw.Works.dataUpdate (h : hw.Works) (mem : Mem) (data : Nat) (isLast : Bool)
    (hstate : sha.sha3State = .engineStarted)
    (hfed : Fed s sha message) (hsize : size.toNat ≤ xsecureCsuDmaMaxTransfer.toNat) :
    ∃ sha' t, xsecureSha3DataUpdate hw sha mem data size isLast s = .ok (xfsblSuccess, sha') t := by
  obtain ⟨b, -, -, hlen, -⟩ := hfed
  have hlt := b.held_lt
  have hmax : xsecureCsuDmaMaxTransfer.toNat = 0x1FFFFFFC := rfl
  have hrem : (size + sha.partialLen).toNat = size.toNat + sha.partialLen.toNat := by
    rw [UInt32.toNat_add, Nat.mod_eq_of_lt (by omega)]
  have hfits : Update.Fits ⟨data, size + sha.partialLen, sha.partialLen, sha.partialData⟩ :=
    ⟨by rw [hlen]; exact hlt, by rw [hrem]; exact Nat.le_add_left _ _⟩
  obtain ⟨l', t, hloop⟩ := h.dataUpdateLoop mem isLast hfits
    (fun hz => by
      show (size + sha.partialLen).toNat ≤ _
      have hz' : sha.partialLen.toNat = 0 := congrArg UInt32.toNat hz
      omega)
    (by show (size + sha.partialLen).toNat ≤ _; omega) s
  exact ⟨_, _, bind_ok.2 ⟨(), s, assert_ok.2 ⟨hstate, rfl⟩, bind_ok.2 ⟨_, t, hloop, rfl⟩⟩⟩

theorem ShaHw.Works.updateLoop (h : hw.Works) (mem : Mem) (data : Nat) (size : UInt32)
    (hstate : sha.sha3State = .engineStarted) (hfed : Fed s sha message) :
    ∃ sha' t, updateLoop hw sha mem data size s = .ok (xfsblSuccess, sha') t := by
  induction sha, data, size using updateLoop.induct generalizing s message with
  | case1 sha data size hbig ih =>
    obtain ⟨sha1, s1, h1⟩ := h.dataUpdate mem data false hstate hfed
      (Nat.le_refl _)
    obtain ⟨hfed1, hsame1⟩ := dataUpdate_ok hfed (Nat.le_refl _) h1
    obtain ⟨sha', t, hrest⟩ := ih (xfsblSuccess, sha1) (by rw [hsame1]; exact hstate) hfed1
    refine ⟨sha', t, ?_⟩
    rw [Csu.updateLoop, if_pos hbig]
    exact bind_ok.2 ⟨_, s1, h1, hrest⟩
  | case2 sha data size hsmall =>
    rw [Csu.updateLoop, if_neg hsmall]
    exact h.dataUpdate mem data _ hstate hfed (UInt32.le_iff_toNat_le.mp (UInt32.not_lt.mp hsmall))

theorem ShaHw.Works.update (h : hw.Works) (mem : Mem) (data : Nat) (size : UInt32)
    (hstate : sha.sha3State = .engineStarted) (hfed : Fed s sha message) :
    ∃ sha' t, xsecureSha3Update hw sha mem data size s = .ok (xfsblSuccess, sha') t := by
  have hfed' : Fed { s with updates := s.updates ++ [mem.load data size.toNat] }
      { sha with sha3Len := sha.sha3Len + size } message := hfed
  have hstate' : ({ sha with sha3Len := sha.sha3Len + size } : Sha3).sha3State = .engineStarted := hstate
  obtain ⟨sha', t, hloop⟩ := h.updateLoop mem data size hstate' hfed'
  exact ⟨sha', t, bind_ok.2 ⟨(), _, rfl, bind_ok.2 ⟨(), _, assert_ok.2 ⟨hstate, rfl⟩,
    bind_ok.2 ⟨_, t, hloop, rfl⟩⟩⟩⟩

theorem ShaHw.Works.finish (h : hw.Works) (hash : Digest) (hstate : sha.sha3State = .engineStarted)
    (hfed : Fed s sha message) (hcounts : sha.Counts message) :
    ∃ hash' sha' t, xsecureSha3Finish hw sha hash s = .ok (xfsblSuccess, hash', sha') t := by
  obtain ⟨-, -, hsize⟩ := finish_block hfed hcounts
  have hmax : (padLen sha.sha3Len + sha.partialLen).toNat ≤ xsecureCsuDmaMaxTransfer.toNat := by
    rw [hsize]
    decide
  obtain ⟨t, hdma⟩ := h.dmaTransfer (Mem.load (sha3Padd sha.sha3PadType.startMask sha.partialData
    sha.partialLen.toNat (padLen sha.sha3Len).toNat) 0 (padLen sha.sha3Len + sha.partialLen).toNat) true
    hw.aligned hmax s
  have htransfer : ∃ size m, finishTransfer hw sha s = .ok (xfsblSuccess, size, m) t := by
    unfold finishTransfer
    simp only [hcounts.1, Bool.false_eq_true, if_false]
    exact ⟨_, _, bind_ok.2 ⟨_, t, hdma, rfl⟩⟩
  obtain ⟨size, m, htransfer⟩ := htransfer
  have hdone := h.sha3WaitForDone t.tick
  refine ⟨hw.keccak t.absorbed,
    { sha with partialData := m.fill 0 size.toNat fun _ => 0, sha3State := .initialized },
    { t with tick := t.tick + 1 }, bind_ok.2 ⟨(), s, assert_ok.2 ⟨hstate, rfl⟩,
      bind_ok.2 ⟨_, t, htransfer, ?_⟩⟩⟩
  show (ask hw.sha3WaitForDone >>= _) t = _
  exact bind_ok.2 ⟨xfsblSuccess, _, ask_ok.2 ⟨hdone, rfl⟩, rfl⟩

end Works

end MeasuredBoot.Csu
