import MeasuredBoot.Initialization

/-!
# What a bitstream digest covers (`fsbl_measured_pl.c`)

`Measure` takes the digest of a bitstream from the hardware. Here is the way there: the stream switch,
the transfers of the source DMA, the SHA3 engine that absorbs every word routed to it, and
`Sha3Len`, the driver's count, by which `XSecure_Sha3Finish` pads. The three ways to measure feed the
engine beside the driver and keep the count by hand. `bitstreamDigest_iff`: of the measurements
that succeed, those of a bitstream that is not encrypted, and not longer than its size in bytes
can say, are the hash of what was streamed, which is the bitstream.
-/

namespace MeasuredBoot.Stream

open Prog

/-! ## Switch, DMA and engine -/

/-- What feeds an output of the stream switch; `invalid` is a select that names no source. -/
inductive SssSrc where
  | srcDma
  | aes
  | invalid
  deriving DecidableEq

/-- `CSU_SSS_CFG`: the source of each output. -/
structure SssCfg where
  pcap : Option SssSrc
  aes : Option SssSrc
  sha3 : Option SssSrc

/-- `Xil_Htonl`, on a little-endian CPU. -/
def xilHtonl (data : UInt32) : UInt32 :=
  let upper : UInt32 := data &&& 0xFF00
  let lower : UInt32 := data >>> 8 &&& 0xFF00
  data <<< 24 ||| upper <<< 8 ||| lower ||| data >>> 24

/-- What the AES engine does in one `XSecure_AesDecryptBlk`: how its waits end, whether the tag is
right, and the IV registers it leaves. The fourth is the length of the next block, in words. -/
structure AesBlock where
  ivWait : UInt32
  dataWait : UInt32
  headerWait : UInt32
  tagWait : UInt32
  aesWait : UInt32
  gcmTagOk : Bool
  iv : Vector UInt32 4

/-- The machine under a measurement. -/
structure PlHw where
  ddr : Mem
  flash : UInt32 → UInt8
  copyStatus : Nat → UInt32
  /-- The waits for the DMA (status 0: the wait ends). -/
  dmaDone : Nat → UInt32
  pcapWaitForDone : Nat → UInt32
  /-- The four words at `FsblIv`. -/
  fsblIv : Vector UInt32 4
  aesBlocks : List AesBlock
  aesKeyZero : UInt32
  /-- The SHA3-384 engine on padded data. -/
  keccak : List UInt8 → Digest
  /-- The address of `ReadBuffer`. -/
  readBuffer : Nat

/-- The SHA3-384 hash of a message. -/
def PlHw.sha3 (hw : PlHw) (message : List UInt8) : Digest :=
  hw.keccak (message ++ nistPad message.length)

/-- `sha3Len` is `SecureSha3.Sha3Len`. `absorbed` and `streamed` are what the engine took and what the
source DMA moved since `XSecure_Sha3Start`, the padding apart; `events` is what was logged; `pcap` are
the transfers that the source DMA made to the PCAP, `reads` where the AES engine's source was read. -/
structure PlState where
  tick : Nat
  sss : SssCfg
  sha3Len : UInt32
  absorbed : List UInt8
  streamed : List UInt8
  events : List Event
  pcap : List (List UInt8)
  reads : List (Nat × Nat)

abbrev Pl := EStateM Halt PlState

def ask {α : Type} (f : Nat → α) : Pl α := fun s => .ok (f s.tick) { s with tick := s.tick + 1 }

def xsecureSssSetup (cfg : SssCfg) : Pl Unit := modify fun s => { s with sss := cfg }

/-- The words a transfer moves, to every output the source DMA feeds. -/
def PlState.move (s : PlState) (bytes : List UInt8) : PlState :=
  { s with
    absorbed := if s.sss.sha3 = some .srcDma then s.absorbed ++ bytes else s.absorbed
    streamed := s.streamed ++ bytes
    pcap := if s.sss.pcap = some .srcDma then s.pcap ++ [bytes] else s.pcap }

/-- `XCsuDma_Transfer` on the source channel: the driver asserts alignment and size. -/
def xcsuDmaTransfer (addr : Nat) (size : UInt32) (bytes : List UInt8) : Pl Unit :=
  if addr % 4 = 0 ∧ size ≤ xcsudmaSizeMax then modify fun s => s.move bytes else throw .hang

/-- `XSecure_Sha3Initialize` and `XSecure_Sha3Start`. -/
def xsecureSha3Start : Pl Unit :=
  modify fun s => { s with sha3Len := 0, absorbed := [], streamed := [] }

/-- `XSecure_Sha3Finish`: the padding of a message of `Sha3Len` bytes, after what was absorbed. -/
def xsecureSha3Finish (hw : PlHw) : Pl Digest := do
  let s ← get
  pure (hw.keccak (s.absorbed ++ nistPad s.sha3Len.toNat))

/-! ## The three measurements -/

section Measure

variable (hw : PlHw)

/-- `bytes` are the `WrSize` words at `WrAddr`. -/
def plMeasureWriteToPcapWithSha3 (wrSize : UInt32) (wrAddr : Nat) (bytes : List UInt8) :
    Pl UInt32 := do
  xsecureSssSetup ⟨some .srcDma, none, some .srcDma⟩
  xcsuDmaTransfer wrAddr wrSize bytes
  modify fun s => { s with sha3Len := s.sha3Len + wrSize <<< 2 }
  let done ← ask hw.dmaDone
  if done ≠ 0 then throw .hang
  else ask hw.pcapWaitForDone

def plMeasureUnencrypted (sizeInWords : UInt32) (source : Nat) : Pl (UInt32 × Digest) := do
  xsecureSha3Start
  let status ← plMeasureWriteToPcapWithSha3 hw sizeInWords source
    (hw.ddr.load source (sizeInWords.toNat * 4))
  let digest ← xsecureSha3Finish hw
  pure (status, digest)

/-- `READ_BUFFER_SIZE`. -/
def chunkMax : UInt32 := 56 * 1024

/-- `n` bytes of the flash. -/
def PlHw.flashRead (addr : UInt32) (n : Nat) : List UInt8 :=
  (List.range n).map fun i => hw.flash (addr + .ofNat i)

def chunkSize (remainingBytes : UInt32) : UInt32 :=
  if remainingBytes ≥ chunkMax then chunkMax else remainingBytes

/-- The loop of `Pl_Measure_Chunked`. -/
def measureChunks (startAddrByte remainingBytes : UInt32) : Pl UInt32 :=
  if _h : remainingBytes = 0 then pure xfsblSuccess
  else do
    let size := chunkSize remainingBytes
    let status ← ask hw.copyStatus
    if status ≠ xfsblSuccess then pure status
    else do
      let status ← plMeasureWriteToPcapWithSha3 hw (size / 4) hw.readBuffer
        ((hw.flashRead startAddrByte size.toNat).take (size.toNat / 4 * 4))
      if status ≠ xfsblSuccess then pure status
      else measureChunks (startAddrByte + size) (remainingBytes - size)
termination_by remainingBytes.toNat
decreasing_by
  show (remainingBytes - chunkSize remainingBytes).toNat < _
  have hpos : 0 < remainingBytes.toNat := by
    rw [Nat.pos_iff_ne_zero]
    exact fun h0 => _h (UInt32.toNat_inj.1 h0)
  have hmax : chunkMax.toNat = 57344 := rfl
  unfold chunkSize
  by_cases hle : remainingBytes ≥ chunkMax
  · rw [if_pos hle, UInt32.toNat_sub_of_le _ _ hle]
    omega
  · rw [if_neg hle, UInt32.toNat_sub_of_le _ _ (UInt32.le_refl _)]
    omega

def plMeasureChunked (bitStreamSizeWord imageOffset dataWordOffset : UInt32) :
    Pl (UInt32 × Digest) := do
  xsecureSha3Start
  let status ← measureChunks hw (imageOffset + 4 * dataWordOffset) (bitStreamSizeWord * 4)
  let digest ← xsecureSha3Finish hw
  pure (status, digest)

def secureHdrSize : Nat := 48
def secureGcmTagSize : Nat := 16

/-- `XSECURE_CSU_AES_GCM_TAG_MISMATCH`. -/
def aesGcmTagMismatch : UInt32 := 0x1

/-- A transfer of `n` bytes of the bitstream, and its wait. -/
def passToAes (addr n : Nat) (wait : UInt32) : Pl UInt32 := do
  xcsuDmaTransfer addr (.ofNat (n / 4)) (hw.ddr.load addr (n / 4 * 4))
  modify fun s => { s with reads := s.reads ++ [(addr, n)] }
  pure wait

/-- `XSecure_AesDecryptBlk` behind the IV: the data, unless this is the secure header, then the next
secure header and the tag. -/
def aesPushBlk (b : AesBlock) (src tag : Nat) (len : UInt32) (secureHeader : Bool) : Pl UInt32 := do
  let status ← (if secureHeader then pure xfsblSuccess else passToAes hw src len.toNat b.dataWait)
  if status ≠ xfsblSuccess then pure status
  else do
    let status ← passToAes hw (src + len.toNat) secureHdrSize b.headerWait
    if status ≠ xfsblSuccess then pure status
    else do
      let status ← passToAes hw tag secureGcmTagSize b.tagWait
      if status ≠ xfsblSuccess then pure status
      else if b.aesWait ≠ xfsblSuccess then pure b.aesWait
      else pure (if b.gcmTagOk then xfsblSuccess else aesGcmTagMismatch)

/-- `XSecure_AesDecryptBlk` to the PCAP, without chunking. -/
def xsecureAesDecryptBlk (b : AesBlock) (iv : Vector UInt32 4) (src tag : Nat) (len : UInt32)
    (secureHeader : Bool) : Pl UInt32 := do
  -- `Iv` points to words
  xcsuDmaTransfer 0 4 (iv.toList.flatMap fun w => leBytes 4 w.toNat)
  if b.ivWait ≠ xfsblSuccess then pure b.ivWait
  else aesPushBlk hw b src tag len secureHeader

/-- The block loop of `Pl_Measure_Encrypted`; an engine without an answer hangs. -/
def measureBlocks (size : UInt32) :
    List AesBlock → Vector UInt32 4 → Nat → Nat → UInt32 → UInt32 → Bool → Pl UInt32
  | [], _, _, _, _, _, _ => throw .hang
  | b :: blocks, iv, srcAddr, gcmTagAddr, nextBlkLen, currentImgLen, secureHeader => do
    let status ← xsecureAesDecryptBlk hw b iv srcAddr gcmTagAddr nextBlkLen secureHeader
    if status ≠ xfsblSuccess then pure status
    else
      let nextBlkLen := xilHtonl b.iv[3] * 4
      let currentImgLen := currentImgLen + nextBlkLen
      if nextBlkLen = 0 then
        pure (if currentImgLen ≠ size then aesImageLenMismatch else xfsblSuccess)
      else if currentImgLen > size then pure aesImageLenMismatch
      else
        let srcAddr := gcmTagAddr + secureGcmTagSize
        measureBlocks size blocks b.iv srcAddr (srcAddr + nextBlkLen.toNat + secureHdrSize)
          nextBlkLen currentImgLen false

def plMeasureEncrypted (source : Nat) (size : UInt32) : Pl (UInt32 × Digest) := do
  xsecureSssSetup ⟨some .aes, some .srcDma, some .srcDma⟩
  xsecureSha3Start
  let status ← measureBlocks hw size hw.aesBlocks hw.fsblIv source (source + secureHdrSize) 0 0 true
  let digest ← xsecureSha3Finish hw
  pure (if hw.aesKeyZero ≠ xfsblSuccess then hw.aesKeyZero else status, digest)

/-- The bitstream event, unless the transfer failed. -/
def logBitstream (r : UInt32 × Digest) : Pl UInt32 :=
  if r.1 ≠ xfsblSuccess then pure r.1
  else do
    modify fun s => { s with events := s.events ++ [bitstreamEvent r.2] }
    pure r.1

/-- `psDdr`: the build has `XFSBL_PS_DDR`. -/
def tpmMeasurePl (psDdr : Bool) (imageOffset : UInt32) (partitionHeader : PartitionHeader)
    (source : Nat) : Pl UInt32 := do
  let sizeInWords := partitionHeader.unEncryptedDataWordLength
  if partitionHeader.encrypted = false then
    if psDdr then do
      let r ← plMeasureUnencrypted hw sizeInWords source
      logBitstream r
    else do
      let r ← plMeasureChunked hw sizeInWords imageOffset partitionHeader.dataWordOffset
      logBitstream r
  else do
    let r ← plMeasureEncrypted hw source (sizeInWords <<< 2)
    logBitstream r

end Measure

/-! ## What a digest should cover -/

section Claim

variable (hw : PlHw) (psDdr : Bool) (imageOffset : UInt32) (h : PartitionHeader) (source : Nat)

/-- The bitstream partition, where the measurement reads it. -/
def partition : List UInt8 :=
  if h.encrypted then hw.ddr.load source (h.encryptedDataWordLength.toNat * 4)
  else if psDdr then hw.ddr.load source (h.unEncryptedDataWordLength.toNat * 4)
  else hw.flashRead (imageOffset + 4 * h.dataWordOffset) (h.unEncryptedDataWordLength.toNat * 4)

/-- The digest logged is that of what was streamed, which the driver counted and which determines
the bitstream. -/
structure BitstreamDigest (s' : PlState) : Prop where
  counted : s'.absorbed.length = s'.sha3Len.toNat
  logged : ∃ e, s'.events.getLast? = some e ∧ e.digest = hw.sha3 s'.streamed
  determined : ∀ (hw₂ : PlHw) (s₂ s₂' : PlState),
    tpmMeasurePl hw₂ psDdr imageOffset h source s₂ = .ok xfsblSuccess s₂' →
      s₂'.streamed = s'.streamed →
      partition hw₂ psDdr imageOffset h source = partition hw psDdr imageOffset h source

end Claim

/-! ## Bytes that are counted -/

section Sent

variable {hw : PlHw} {s t u s' : PlState} {n n' : UInt32} {bs bs' : List UInt8}

/-- The engine took what the DMA moved, and the driver counted `n`. -/
structure Sent (n : UInt32) (bs : List UInt8) (s t : PlState) : Prop where
  sha3Len : t.sha3Len = s.sha3Len + n
  absorbed : t.absorbed = s.absorbed ++ bs
  streamed : t.streamed = s.streamed ++ bs
  events : t.events = s.events

theorem Sent.trans (h : Sent n bs s t) (h' : Sent n' bs' t u) : Sent (n + n') (bs ++ bs') s u where
  sha3Len := by rw [h'.sha3Len, h.sha3Len, UInt32.add_assoc]
  absorbed := by rw [h'.absorbed, h.absorbed, List.append_assoc]
  streamed := by rw [h'.streamed, h.streamed, List.append_assoc]
  events := by rw [h'.events, h.events]

theorem plMeasureWriteToPcapWithSha3_ok {wrAddr : Nat} {status : UInt32}
    (h : plMeasureWriteToPcapWithSha3 hw n wrAddr bs s = .ok status s') :
    n ≤ xcsudmaSizeMax ∧ Sent (n <<< 2) bs s s' := by
  unfold plMeasureWriteToPcapWithSha3 at h
  obtain ⟨_, t, hsetup, h⟩ := bind_ok.1 h
  rw [xsecureSssSetup, modify_ok] at hsetup
  obtain ⟨_, u, htransfer, h⟩ := bind_ok.1 h
  unfold xcsuDmaTransfer at htransfer
  by_cases hp : wrAddr % 4 = 0 ∧ n ≤ xcsudmaSizeMax
  · rw [if_pos hp, modify_ok] at htransfer
    obtain ⟨_, v, hlen, h⟩ := bind_ok.1 h
    rw [modify_ok] at hlen
    obtain ⟨done, x, hdone, h⟩ := bind_ok.1 h
    cases hdone
    by_cases hd : hw.dmaDone v.tick ≠ 0
    · rw [if_pos hd] at h
      simp at h
    · rw [if_neg hd] at h
      cases h
      subst hsetup htransfer hlen
      exact ⟨hp.2, rfl, rfl, rfl, rfl⟩
  · rw [if_neg hp] at htransfer
    simp at htransfer

theorem xsecureSha3Finish_ok {d : Digest} (h : xsecureSha3Finish hw s = .ok d s') :
    d = hw.keccak (s.absorbed ++ nistPad s.sha3Len.toNat) ∧ s' = s := by
  cases h
  exact ⟨rfl, rfl⟩

theorem xsecureSha3Start_ok {x : Unit} (h : xsecureSha3Start s = .ok x s') :
    s' = { s with sha3Len := 0, absorbed := [], streamed := [] } := by
  cases h
  rfl

/-- A digest of what was sent from the start on. -/
structure Finished (hw : PlHw) (n : UInt32) (bs : List UInt8) (r : UInt32 × Digest) (s' : PlState) :
    Prop where
  sha3Len : s'.sha3Len = n
  absorbed : s'.absorbed = bs
  streamed : s'.streamed = bs
  digest : r.2 = hw.keccak (bs ++ nistPad n.toNat)

theorem Sent.finished {s₀ : PlState} {r : UInt32 × Digest}
    (h : Sent n bs { s₀ with sha3Len := 0, absorbed := [], streamed := [] } s)
    (hr : r.2 = hw.keccak (s.absorbed ++ nistPad s.sha3Len.toNat)) : Finished hw n bs r s := by
  have hlen : s.sha3Len = n := by rw [h.sha3Len, UInt32.zero_add]
  have habs : s.absorbed = bs := by rw [h.absorbed, List.nil_append]
  refine ⟨hlen, habs, ?_, ?_⟩
  · rw [h.streamed, List.nil_append]
  · rw [hr, habs, hlen]

theorem plMeasureUnencrypted_ok {source : Nat} {r : UInt32 × Digest}
    (h : plMeasureUnencrypted hw n source s = .ok r s') :
    n ≤ xcsudmaSizeMax ∧ Finished hw (n <<< 2) (hw.ddr.load source (n.toNat * 4)) r s' := by
  unfold plMeasureUnencrypted at h
  obtain ⟨_, t, hstart, h⟩ := bind_ok.1 h
  obtain ⟨status, u, hwrite, h⟩ := bind_ok.1 h
  obtain ⟨d, v, hfinish, h⟩ := bind_ok.1 h
  obtain ⟨rfl, rfl⟩ := pure_ok.1 h
  obtain rfl := xsecureSha3Start_ok hstart
  obtain ⟨hd, rfl⟩ := xsecureSha3Finish_ok hfinish
  obtain ⟨hle, hsent⟩ := plMeasureWriteToPcapWithSha3_ok hwrite
  exact ⟨hle, hsent.finished hd⟩

/-! ### Chunks -/

@[simp] theorem length_flashRead (addr : UInt32) (k : Nat) : (hw.flashRead addr k).length = k := by
  simp [PlHw.flashRead]

theorem flashRead_append (addr c : UInt32) (k : Nat) :
    hw.flashRead addr c.toNat ++ hw.flashRead (addr + c) k = hw.flashRead addr (c.toNat + k) := by
  unfold PlHw.flashRead
  rw [List.range_add, List.map_append, List.map_map]
  congr 1
  apply List.map_congr_left
  intro i _
  show hw.flash (addr + c + .ofNat i) = hw.flash (addr + .ofNat (c.toNat + i))
  rw [UInt32.ofNat_add, UInt32.ofNat_toNat, UInt32.add_assoc]

theorem chunkSize_le (remaining : UInt32) : chunkSize remaining ≤ remaining := by
  unfold chunkSize
  by_cases hge : remaining ≥ chunkMax
  · rw [if_pos hge]; exact hge
  · rw [if_neg hge]; exact UInt32.le_refl _

theorem chunkSize_dvd {remaining : UInt32} (h : remaining.toNat % 4 = 0) :
    (chunkSize remaining).toNat % 4 = 0 := by
  unfold chunkSize
  by_cases hge : remaining ≥ chunkMax
  · rw [if_pos hge]; rfl
  · rw [if_neg hge]; exact h

theorem chunkSize_words {remaining : UInt32} (h : remaining.toNat % 4 = 0) :
    (chunkSize remaining / 4) <<< 2 = chunkSize remaining := by
  have hdvd := chunkSize_dvd h
  rw [← UInt32.toNat_inj, UInt32.toNat_shiftLeft, UInt32.toNat_div]
  have hlt := (chunkSize remaining).toNat_lt
  have h4 : (4 : UInt32).toNat = 4 := rfl
  have h2 : (2 : UInt32).toNat % 32 = 2 := rfl
  rw [h4, h2, Nat.shiftLeft_eq]
  omega

theorem measureChunks_ok {start remaining : UInt32} (hdvd : remaining.toNat % 4 = 0)
    (h : measureChunks hw start remaining s = .ok xfsblSuccess s') :
    Sent remaining (hw.flashRead start remaining.toNat) s s' := by
  fun_induction measureChunks hw start remaining generalizing s with
  | case1 start =>
    obtain ⟨-, rfl⟩ := pure_ok.1 h
    exact ⟨by simp, by simp [PlHw.flashRead], by simp [PlHw.flashRead], rfl⟩
  | case2 start remaining hne chunk =>
    rename_i ih
    obtain ⟨copyStatus, t, hcopy, h⟩ := bind_ok.1 h
    cases hcopy
    by_cases hc : hw.copyStatus s.tick ≠ xfsblSuccess
    · rw [if_pos hc] at h
      exact absurd (pure_ok.1 h).1 hc
    rw [if_neg hc] at h
    obtain ⟨status, u, hwrite, h⟩ := bind_ok.1 h
    by_cases hs : status ≠ xfsblSuccess
    · rw [if_pos hs] at h
      exact absurd (pure_ok.1 h).1 hs
    rw [if_neg hs] at h
    have hsize : chunk = chunkSize remaining := rfl
    have hle : chunk.toNat ≤ remaining.toNat := chunkSize_le remaining
    have hword : chunk.toNat % 4 = 0 := chunkSize_dvd hdvd
    have hsub : (remaining - chunk).toNat = remaining.toNat - chunk.toNat :=
      UInt32.toNat_sub_of_le _ _ hle
    obtain ⟨-, hsent⟩ := plMeasureWriteToPcapWithSha3_ok hwrite
    rw [hsize, chunkSize_words hdvd, ← hsize,
      List.take_of_length_le (by rw [length_flashRead]; omega)] at hsent
    have hrest := ih (by rw [hsub]; omega) h
    have hall := hsent.trans hrest
    rw [flashRead_append, hsub, Nat.add_sub_cancel' hle,
      show chunk + (remaining - chunk) = remaining by
        rw [UInt32.add_comm, UInt32.sub_add_cancel]] at hall
    exact ⟨hall.sha3Len, hall.absorbed, hall.streamed, hall.events⟩

theorem plMeasureChunked_ok {imageOffset dataWordOffset : UInt32} {r : UInt32 × Digest}
    (h : plMeasureChunked hw n imageOffset dataWordOffset s = .ok r s') (hr : r.1 = xfsblSuccess) :
    Finished hw (n * 4) (hw.flashRead (imageOffset + 4 * dataWordOffset) (n * 4).toNat) r s' := by
  unfold plMeasureChunked at h
  obtain ⟨_, t, hstart, h⟩ := bind_ok.1 h
  obtain ⟨status, u, hchunks, h⟩ := bind_ok.1 h
  obtain ⟨d, v, hfinish, h⟩ := bind_ok.1 h
  obtain ⟨rfl, rfl⟩ := pure_ok.1 h
  obtain rfl := xsecureSha3Start_ok hstart
  obtain ⟨hd, rfl⟩ := xsecureSha3Finish_ok hfinish
  obtain rfl : status = xfsblSuccess := hr
  have hdvd : (n * 4).toNat % 4 = 0 := by
    rw [UInt32.toNat_mul, show (4 : UInt32).toNat = 4 from rfl]
    omega
  exact (measureChunks_ok hdvd hchunks).finished hd

/-! ### Blocks -/

/-- The engine took bytes; the driver counted none. -/
def Uncounted (s t : PlState) : Prop :=
  t.sha3Len = s.sha3Len ∧ t.sss = s.sss ∧ s.absorbed <+: t.absorbed

instance : IsPreorder PlState Uncounted where
  refl _ := ⟨rfl, rfl, List.prefix_rfl⟩
  trans _ _ _ h h' := ⟨h'.1.trans h.1, h'.2.1.trans h.2.1, h.2.2.trans h'.2.2⟩

theorem frame_xcsuDmaTransfer (addr : Nat) : Frame Uncounted (xcsuDmaTransfer addr n bs) := by
  refine frame_ite (fun _ => frame_modify fun s => ⟨rfl, rfl, ?_⟩) fun _ => frame_throw _
  show s.absorbed <+: if s.sss.sha3 = some .srcDma then s.absorbed ++ bs else s.absorbed
  by_cases hsha : s.sss.sha3 = some .srcDma
  · rw [if_pos hsha]
    exact List.prefix_append _ _
  · rw [if_neg hsha]

theorem frame_passToAes (addr k : Nat) (wait : UInt32) :
    Frame Uncounted (passToAes hw addr k wait) :=
  frame_bind (frame_xcsuDmaTransfer _) fun _ =>
    frame_bind (frame_modify fun _ => ⟨rfl, rfl, List.prefix_rfl⟩) fun _ => frame_pure _

theorem frame_aesPushBlk {b : AesBlock} {src tag : Nat} {len : UInt32} {secureHeader : Bool} :
    Frame Uncounted (aesPushBlk hw b src tag len secureHeader) := by
  refine frame_bind ?_ fun _ => ?_
  · exact frame_ite (fun _ => frame_pure _) fun _ => frame_passToAes _ _ _
  refine frame_ite (fun _ => frame_pure _) fun _ => frame_bind (frame_passToAes _ _ _) fun _ => ?_
  refine frame_ite (fun _ => frame_pure _) fun _ => frame_bind (frame_passToAes _ _ _) fun _ => ?_
  refine frame_ite (fun _ => frame_pure _) fun _ => ?_
  exact frame_ite (fun _ => frame_pure _) fun _ => frame_pure _

theorem frame_measureBlocks {size : UInt32} {blocks : List AesBlock} {iv : Vector UInt32 4}
    {srcAddr gcmTagAddr : Nat} {nextBlkLen currentImgLen : UInt32} {secureHeader : Bool} :
    Frame Uncounted (measureBlocks hw size blocks iv srcAddr gcmTagAddr nextBlkLen currentImgLen
      secureHeader) := by
  induction blocks generalizing iv srcAddr gcmTagAddr nextBlkLen currentImgLen secureHeader with
  | nil => exact frame_throw _
  | cons b blocks ih =>
    refine frame_bind (frame_bind (frame_xcsuDmaTransfer _) fun _ => ?_) fun status => ?_
    · exact frame_ite (fun _ => frame_pure _) fun _ => frame_aesPushBlk
    · refine frame_ite (fun _ => frame_pure _) fun _ => ?_
      refine frame_ite (fun _ => frame_pure _) fun _ => ?_
      exact frame_ite (fun _ => frame_pure _) fun _ => ih

/-- The IV of the first block alone is 16 bytes. -/
theorem measureBlocks_ok {size status : UInt32} {blocks : List AesBlock} {iv : Vector UInt32 4}
    {srcAddr gcmTagAddr : Nat} {nextBlkLen currentImgLen : UInt32} {secureHeader : Bool}
    (hsha : s.sss.sha3 = some .srcDma)
    (h : measureBlocks hw size blocks iv srcAddr gcmTagAddr nextBlkLen currentImgLen secureHeader s =
      .ok status s') : s'.sha3Len = s.sha3Len ∧ s.absorbed.length + 16 ≤ s'.absorbed.length := by
  have hall := frame_measureBlocks.ok h
  refine ⟨hall.1, ?_⟩
  cases blocks with
  | nil =>
    unfold measureBlocks at h
    simp at h
  | cons b blocks =>
    unfold measureBlocks at h
    obtain ⟨st, u, hblk, hrest⟩ := bind_ok.1 h
    obtain ⟨_, t, hiv, hpush⟩ := bind_ok.1 hblk
    have hpushed : Uncounted t u :=
      (frame_ite (fun _ => frame_pure _) fun _ => frame_aesPushBlk).ok hpush
    have hnext : Uncounted u s' := by
      refine (frame_ite (fun _ => frame_pure _) fun _ => ?_).ok hrest
      refine frame_ite (fun _ => frame_pure _) fun _ => ?_
      exact frame_ite (fun _ => frame_pure _) fun _ => frame_measureBlocks
    have hlen : (iv.toList.flatMap fun w => leBytes 4 w.toNat).length = 16 := by simp
    have ht : t.absorbed.length = s.absorbed.length + 16 := by
      unfold xcsuDmaTransfer at hiv
      rw [if_pos ⟨rfl, by decide⟩, modify_ok] at hiv
      subst hiv
      show (if s.sss.sha3 = some .srcDma then _ else _ : List UInt8).length = _
      rw [if_pos hsha, List.length_append, hlen]
    have htu := hpushed.2.2.length_le
    have hus := hnext.2.2.length_le
    omega

theorem plMeasureEncrypted_ok {source : Nat} {size : UInt32} {r : UInt32 × Digest}
    (h : plMeasureEncrypted hw source size s = .ok r s') :
    s'.sha3Len = 0 ∧ 16 ≤ s'.absorbed.length := by
  unfold plMeasureEncrypted at h
  obtain ⟨_, t, hsss, h⟩ := bind_ok.1 h
  obtain ⟨_, u, hstart, h⟩ := bind_ok.1 h
  obtain ⟨status, v, hblocks, h⟩ := bind_ok.1 h
  obtain ⟨d, x, hfinish, h⟩ := bind_ok.1 h
  obtain ⟨rfl, rfl⟩ := pure_ok.1 h
  obtain ⟨-, rfl⟩ := xsecureSha3Finish_ok hfinish
  rw [xsecureSssSetup, modify_ok] at hsss
  obtain rfl := xsecureSha3Start_ok hstart
  subst hsss
  have hout := measureBlocks_ok rfl hblocks
  refine ⟨hout.1, ?_⟩
  have hle : 0 + 16 ≤ x.absorbed.length := hout.2
  omega

end Sent

/-! ## Successful measurements -/

section Success

variable {hw : PlHw} {psDdr : Bool} {imageOffset : UInt32} {h : PartitionHeader} {source : Nat}
  {s s' : PlState}

theorem logBitstream_ok {r : UInt32 × Digest} (hrun : logBitstream r s = .ok xfsblSuccess s') :
    r.1 = xfsblSuccess ∧ s' = { s with events := s.events ++ [bitstreamEvent r.2] } := by
  unfold logBitstream at hrun
  by_cases hr : r.1 = xfsblSuccess
  · rw [if_neg (not_not_intro hr)] at hrun
    obtain ⟨_, t, hlog, hrun⟩ := bind_ok.1 hrun
    rw [modify_ok] at hlog
    obtain ⟨-, rfl⟩ := pure_ok.1 hrun
    exact ⟨hr, hlog.symm⟩
  · rw [if_pos hr] at hrun
    exact absurd (pure_ok.1 hrun).1 hr

theorem tpmMeasurePl_eq_ddr (henc : h.encrypted = false) :
    tpmMeasurePl hw true imageOffset h source = (do
      let r ← plMeasureUnencrypted hw h.unEncryptedDataWordLength source
      logBitstream r) := by
  unfold tpmMeasurePl
  rw [if_pos henc, if_pos rfl]

theorem tpmMeasurePl_eq_chunks (henc : h.encrypted = false) :
    tpmMeasurePl hw false imageOffset h source = (do
      let r ← plMeasureChunked hw h.unEncryptedDataWordLength imageOffset h.dataWordOffset
      logBitstream r) := by
  unfold tpmMeasurePl
  rw [if_pos henc, if_neg Bool.false_ne_true]

theorem tpmMeasurePl_eq_encrypted (henc : h.encrypted = true) :
    tpmMeasurePl hw psDdr imageOffset h source = (do
      let r ← plMeasureEncrypted hw source (h.unEncryptedDataWordLength <<< 2)
      logBitstream r) := by
  unfold tpmMeasurePl
  rw [if_neg (by rw [henc]; decide)]

/-- A bitstream in DDR is streamed whole. -/
theorem tpmMeasurePl_ddr (henc : h.encrypted = false)
    (hrun : tpmMeasurePl hw true imageOffset h source s = .ok xfsblSuccess s') :
    h.unEncryptedDataWordLength ≤ xcsudmaSizeMax ∧ ∃ r v,
      Finished hw (h.unEncryptedDataWordLength <<< 2) (partition hw true imageOffset h source) r v ∧
      s' = { v with events := v.events ++ [bitstreamEvent r.2] } := by
  rw [tpmMeasurePl_eq_ddr henc] at hrun
  obtain ⟨r, v, hmeasure, hlog⟩ := bind_ok.1 hrun
  obtain ⟨-, rfl⟩ := logBitstream_ok hlog
  obtain ⟨hle, hfinished⟩ := plMeasureUnencrypted_ok hmeasure
  refine ⟨hle, r, v, ?_, rfl⟩
  unfold partition
  rw [henc, if_neg Bool.false_ne_true, if_pos rfl]
  exact hfinished

/-- In chunks, as much of it as the size in bytes says. -/
theorem tpmMeasurePl_chunks (henc : h.encrypted = false)
    (hrun : tpmMeasurePl hw false imageOffset h source s = .ok xfsblSuccess s') :
    ∃ r v, Finished hw (h.unEncryptedDataWordLength * 4)
        (hw.flashRead (imageOffset + 4 * h.dataWordOffset) (h.unEncryptedDataWordLength * 4).toNat) r v ∧
      s' = { v with events := v.events ++ [bitstreamEvent r.2] } := by
  rw [tpmMeasurePl_eq_chunks henc] at hrun
  obtain ⟨r, v, hmeasure, hlog⟩ := bind_ok.1 hrun
  obtain ⟨hr, rfl⟩ := logBitstream_ok hlog
  exact ⟨r, v, plMeasureChunked_ok hmeasure hr, rfl⟩

theorem tpmMeasurePl_encrypted (henc : h.encrypted = true)
    (hrun : tpmMeasurePl hw psDdr imageOffset h source s = .ok xfsblSuccess s') :
    s'.sha3Len = 0 ∧ 16 ≤ s'.absorbed.length := by
  rw [tpmMeasurePl_eq_encrypted henc] at hrun
  obtain ⟨r, v, hmeasure, hlog⟩ := bind_ok.1 hrun
  obtain ⟨-, rfl⟩ := logBitstream_ok hlog
  have hout := plMeasureEncrypted_ok hmeasure
  exact hout

/-- The size in bytes is that of the bitstream. -/
def SizeFits (psDdr : Bool) (h : PartitionHeader) : Prop :=
  psDdr = true ∨ h.unEncryptedDataWordLength.toNat < 2 ^ 30

/-- A bitstream that is not encrypted is streamed whole, and counted. -/
theorem tpmMeasurePl_plain (henc : h.encrypted = false) (hfits : SizeFits psDdr h)
    (hrun : tpmMeasurePl hw psDdr imageOffset h source s = .ok xfsblSuccess s') :
    ∃ n r v, Finished hw n (partition hw psDdr imageOffset h source) r v ∧
      n.toNat = (partition hw psDdr imageOffset h source).length ∧
      s' = { v with events := v.events ++ [bitstreamEvent r.2] } := by
  cases psDdr with
  | true =>
    obtain ⟨hle, r, v, hfinished, rfl⟩ := tpmMeasurePl_ddr henc hrun
    refine ⟨_, r, v, hfinished, ?_, rfl⟩
    have hmax : h.unEncryptedDataWordLength.toNat ≤ 0x07FFFFFF := hle
    have hlen : (partition hw true imageOffset h source).length =
        h.unEncryptedDataWordLength.toNat * 4 := by
      unfold partition
      rw [henc, if_neg Bool.false_ne_true, if_pos rfl, Mem.length_load]
    rw [hlen, UInt32.toNat_shiftLeft, show (2 : UInt32).toNat % 32 = 2 from rfl, Nat.shiftLeft_eq]
    omega
  | false =>
    obtain ⟨r, v, hfinished, rfl⟩ := tpmMeasurePl_chunks henc hrun
    have hsize : h.unEncryptedDataWordLength.toNat < 2 ^ 30 := hfits.resolve_left Bool.false_ne_true
    have hbytes : (h.unEncryptedDataWordLength * 4).toNat =
        h.unEncryptedDataWordLength.toNat * 4 := by
      rw [UInt32.toNat_mul, show (4 : UInt32).toNat = 4 from rfl]
      omega
    have hpart : partition hw false imageOffset h source =
        hw.flashRead (imageOffset + 4 * h.dataWordOffset) (h.unEncryptedDataWordLength * 4).toNat := by
      unfold partition
      rw [henc, if_neg Bool.false_ne_true, if_neg Bool.false_ne_true, hbytes]
    rw [← hpart] at hfinished
    refine ⟨_, r, v, hfinished, ?_, rfl⟩
    rw [hpart, length_flashRead]

/-! ### A size that does not fit -/

theorem flashRead_congr {f : UInt32 → UInt8} {start : UInt32} {k : Nat}
    (hf : ∀ i < k, f (start + .ofNat i) = hw.flash (start + .ofNat i)) :
    ({ hw with flash := f } : PlHw).flashRead start k = hw.flashRead start k :=
  List.map_congr_left fun i hi => hf i (List.mem_range.1 hi)

/-- The chunks do not depend on the rest of the flash. -/
theorem measureChunks_congr {f : UInt32 → UInt8} {start remaining : UInt32}
    (hf : ∀ i < remaining.toNat, f (start + .ofNat i) = hw.flash (start + .ofNat i)) :
    measureChunks { hw with flash := f } start remaining = measureChunks hw start remaining := by
  fun_induction measureChunks hw start remaining with
  | case1 start => rw [measureChunks, dif_pos rfl]
  | case2 start remaining hne chunk =>
    rename_i ih
    have hle : chunk.toNat ≤ remaining.toNat := chunkSize_le remaining
    have hsub : (remaining - chunk).toNat = remaining.toNat - chunk.toNat :=
      UInt32.toNat_sub_of_le _ _ hle
    have hrest : measureChunks { hw with flash := f } (start + chunk) (remaining - chunk) =
        measureChunks hw (start + chunk) (remaining - chunk) := by
      refine ih fun i hi => ?_
      have hshift := hf (chunk.toNat + i) (by omega)
      rwa [UInt32.ofNat_add, UInt32.ofNat_toNat, ← UInt32.add_assoc] at hshift
    rw [measureChunks, dif_neg hne]
    dsimp only
    rw [show chunkSize remaining = chunk from rfl, hrest,
      flashRead_congr fun i hi => hf i (by omega)]
    rfl

/-- Two flashes that differ behind what the size in bytes says. -/
theorem not_determined (henc : h.encrypted = false) (hfits : ¬ SizeFits psDdr h)
    (hrun : tpmMeasurePl hw psDdr imageOffset h source s = .ok xfsblSuccess s') :
    ∃ hw₂, tpmMeasurePl hw₂ psDdr imageOffset h source s = .ok xfsblSuccess s' ∧
      partition hw₂ psDdr imageOffset h source ≠ partition hw psDdr imageOffset h source := by
  obtain ⟨hddr, hsize⟩ := not_or.1 hfits
  rw [Bool.not_eq_true] at hddr
  subst hddr
  let n := h.unEncryptedDataWordLength
  let start := imageOffset + 4 * h.dataWordOffset
  let far := start + .ofNat (n * 4).toNat
  let f : UInt32 → UInt8 := fun a => if a = far then hw.flash a + 1 else hw.flash a
  have hlt : (n * 4).toNat < 2 ^ 32 := (n * 4).toNat_lt
  have hnear (i : Nat) (hi : i < (n * 4).toNat) :
      f (start + .ofNat i) = hw.flash (start + .ofNat i) := by
    refine if_neg fun heq => ?_
    have hi' : UInt32.ofNat i = .ofNat (n * 4).toNat := (UInt32.add_right_inj start).1 heq
    have := congrArg UInt32.toNat hi'
    rw [UInt32.toNat_ofNat_of_lt' (Nat.lt_trans hi hlt), UInt32.toNat_ofNat_of_lt' hlt] at this
    omega
  refine ⟨{ hw with flash := f }, ?_, fun heq => ?_⟩
  · have hchunks : plMeasureChunked { hw with flash := f } n imageOffset h.dataWordOffset =
        plMeasureChunked hw n imageOffset h.dataWordOffset := by
      unfold plMeasureChunked
      rw [measureChunks_congr hnear]
      rfl
    rw [tpmMeasurePl_eq_chunks henc] at hrun ⊢
    rw [hchunks]
    exact hrun
  · unfold partition at heq
    rw [henc, if_neg Bool.false_ne_true, if_neg Bool.false_ne_true, if_neg Bool.false_ne_true,
      if_neg Bool.false_ne_true] at heq
    have hin : (n * 4).toNat < n.toNat * 4 := by
      have hge : 2 ^ 30 ≤ n.toNat := Nat.le_of_not_lt hsize
      omega
    have hbyte : f far = hw.flash far := List.map_inj_left.1 heq _ (List.mem_range.2 hin)
    rw [show f far = hw.flash far + 1 from if_pos rfl] at hbyte
    simp at hbyte

end Success

/-! ## The digest of `Measure` -/

section Measured

variable {hw : Hw} {w w' : World} {s : PlState}

/-- The machine at a state of the FSBL: the fields of a plain bitstream in DDR. -/
def PlHw.ofHw (hw : Hw) (w : World) : PlHw where
  ddr := w.mem
  flash _ := 0
  copyStatus _ := 0
  dmaDone t := hw.call t .waitCsuDmaDone
  pcapWaitForDone t := hw.call t .pcapWaitForDone
  fsblIv := Vector.replicate 4 0
  aesBlocks := []
  aesKeyZero := 0
  keccak := hw.keccak
  readBuffer := 0

theorem xcsuDmaTransfer_run {addr : Nat} {n : UInt32} {bs : List UInt8}
    (hp : addr % 4 = 0 ∧ n ≤ xcsudmaSizeMax) : xcsuDmaTransfer addr n bs s = .ok () (s.move bs) := by
  unfold xcsuDmaTransfer
  rw [if_pos hp]
  rfl

/-- A write whose wait ends. -/
theorem plMeasureWriteToPcapWithSha3_run {hw : PlHw} {n : UInt32} {wrAddr : Nat} {bs : List UInt8}
    (hp : wrAddr % 4 = 0 ∧ n ≤ xcsudmaSizeMax) (hd : hw.dmaDone s.tick = 0) :
    ∃ s', plMeasureWriteToPcapWithSha3 hw n wrAddr bs s = .ok (hw.pcapWaitForDone (s.tick + 1)) s' := by
  unfold plMeasureWriteToPcapWithSha3
  rw [bind_apply]
  show ∃ s', (xcsuDmaTransfer wrAddr n bs >>= _) _ = _
  rw [bind_apply, xcsuDmaTransfer_run hp]
  show ∃ s', (if hw.dmaDone s.tick ≠ 0 then _ else _ : Pl UInt32) _ = _
  rw [if_neg (not_not_intro hd)]
  exact ⟨_, rfl⟩

/-- Where the engine finishes, the digest `Measure` takes for a plain bitstream is that of the
engine fed by the DMA. -/
theorem plMeasureUnencrypted_engine {n source : Nat} {sizeInWords : UInt32} {r : UInt32 × Digest}
    (hsha : hw.sha (w.tick + 2) = .done) (htick : s.tick = w.tick)
    (h : MeasuredBoot.plMeasureUnencrypted hw n sizeInWords source w = .ok r w') :
    ∃ s', plMeasureUnencrypted (.ofHw hw w) sizeInWords source s = .ok r s' := by
  obtain ⟨input, v, hload, h⟩ := bind_ok.1 h
  cases hload
  obtain ⟨status, v, hwrite, h⟩ := bind_ok.1 h
  obtain ⟨digest, u, hdigest, h⟩ := bind_ok.1 h
  obtain ⟨_, x, -, h⟩ := bind_ok.1 h
  obtain ⟨rfl, -⟩ := pure_ok.1 h
  obtain ⟨_, y, hassert, hwrite⟩ := bind_ok.1 hwrite
  obtain ⟨_, z, hwait, hpcap⟩ := bind_ok.1 hwrite
  unfold MeasuredBoot.when at hassert
  by_cases hp : source % 4 = 0 ∧ sizeInWords ≤ xcsudmaSizeMax
  · rw [if_neg (not_not_intro hp)] at hassert
    obtain ⟨-, rfl⟩ := pure_ok.1 hassert
    obtain ⟨done, y, hdone, hwait⟩ := bind_ok.1 hwait
    cases hdone
    by_cases hd : hw.call w.tick .waitCsuDmaDone = 0
    · rw [if_pos hd] at hwait
      obtain ⟨-, rfl⟩ := pure_ok.1 hwait
      cases hpcap
      obtain ⟨e, y, hend, hdigest⟩ := bind_ok.1 hdigest
      cases hend
      rw [show ({ w with tick := w.tick + 1 + 1 } : World).tick = w.tick + 2 from rfl, hsha] at hdigest
      obtain ⟨rfl, -⟩ := pure_ok.1 hdigest
      let s₀ : PlState := { s with sha3Len := 0, absorbed := [], streamed := [] }
      have hd₀ : (PlHw.ofHw hw w).dmaDone s₀.tick = 0 := by
        rw [← htick] at hd
        exact hd
      obtain ⟨s', hrun⟩ := @plMeasureWriteToPcapWithSha3_run s₀ (.ofHw hw w) sizeInWords source
        (w.mem.load source (sizeInWords.toNat * 4)) hp hd₀
      refine ⟨s', bind_ok.2 ⟨(), s₀, rfl, bind_ok.2 ⟨_, s', hrun, bind_ok.2 ⟨_, s', rfl, ?_⟩⟩⟩⟩
      obtain ⟨hle, hsent⟩ := plMeasureWriteToPcapWithSha3_ok hrun
      have hfinished : Finished (.ofHw hw w) (sizeInWords <<< 2)
          (w.mem.load source (sizeInWords.toNat * 4))
          (0, hw.keccak (s'.absorbed ++ nistPad s'.sha3Len.toNat)) s' := hsent.finished rfl
      refine pure_ok.2 ⟨Prod.ext ?_ ?_, rfl⟩
      · show hw.call (s.tick + 1) .pcapWaitForDone = hw.call (w.tick + 1) .pcapWaitForDone
        rw [htick]
      · have hmax : sizeInWords.toNat ≤ 0x07FFFFFF := hle
        have hlen : (sizeInWords <<< 2).toNat = sizeInWords.toNat * 4 := by
          rw [UInt32.toNat_shiftLeft, show (2 : UInt32).toNat % 32 = 2 from rfl, Nat.shiftLeft_eq]
          omega
        have hdigest : hw.keccak (s'.absorbed ++ nistPad s'.sha3Len.toNat) = _ := hfinished.digest
        show hw.keccak _ = hw.keccak _
        rw [hdigest, hlen, Mem.length_load]
        rfl
    · rw [if_neg hd] at hwait
      simp at hwait
  · rw [if_pos hp] at hassert
    simp at hassert

end Measured

/-! ## A machine -/

/-- Every wait ends; the engine answers once, with a next block of length 0. -/
def readyHw : PlHw where
  ddr _ := 0
  flash _ := 0
  copyStatus _ := 0
  dmaDone _ := 0
  pcapWaitForDone _ := 0
  fsblIv := Vector.replicate 4 0
  aesBlocks := [⟨0, 0, 0, 0, 0, true, Vector.replicate 4 0⟩]
  aesKeyZero := 0
  keccak _ := zeroDigest
  readBuffer := 0

def idlePlState : PlState := ⟨0, ⟨none, none, none⟩, 0, [], [], [], [], []⟩

/-- A bitstream of one word, in DDR. -/
def oneWordHeader : PartitionHeader := { PartitionHeader.zero with unEncryptedDataWordLength := 1 }

/-- An encrypted bitstream of no data: the secure header and its tag. -/
def encryptedHeader : PartitionHeader :=
  { PartitionHeader.zero with partitionAttributes := xihPhAttrbEncryption ||| xihPhAttrbDestDevicePl }

end MeasuredBoot.Stream
