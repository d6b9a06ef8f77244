import MeasuredBoot.BitstreamTransfer
import MeasuredBoot.PartitionRange

/-!
# Where a bitstream comes from, build by build (`xfsbl_partition_load.c`)

The copy of an unsigned bitstream, its checksum and its transfer each choose a source: the copy and
the checksum by `XFSBL_PL_LOAD_FROM_OCM`, the transfer of a plain one by `XFSBL_PS_DDR`.
`partitionLoad` is the load with both macros as a parameter, and `sourceAgrees_iff` says for which
headers and builds the words that went to the PL, the flash and the log agree.
-/

namespace MeasuredBoot.Stream

open Prog

/-! ## Build and machine -/

/-- `XFSBL_PS_DDR` and `XFSBL_PL_LOAD_FROM_OCM`. -/
structure PlBuild where
  psDdr : Bool
  plLoadFromOcm : Bool
  deriving DecidableEq

/-- `XFsbl_CheckValidMemoryAddress` without its PS DDR branch. -/
def checkValidMemoryAddressDdrLess (address : UInt64) (cpuId devId : UInt32) : UInt32 :=
  if cpuId = xihPhAttrbDestCpuPmu ∧ xfsblPmuRamStartAddress ≤ address ∧
      address < xfsblPmuRamEndAddress then xfsblSuccess
  else if (cpuId = xihPhAttrbDestCpuR5_0 ∨ cpuId = xihPhAttrbDestCpuR5_1) ∧
      inR5TcmBank address then xfsblSuccess
  else if cpuId = xihPhAttrbDestCpuR5L ∧ inR5LTcm address then xfsblSuccess
  else if xfsblOcmStartAddress ≤ address ∧ address < xfsblOcmEndAddress then xfsblSuccess
  else if devId = xihPhAttrbDestDevicePl ∧ address = xfsblDummyPlAddr then xfsblSuccess
  else xfsblErrorAddress

/-- An unsigned bitstream that the validator of the build accepts: without PS DDR it has fewer
addresses. -/
structure PlBuild.Accepts (b : PlBuild) (h : PartitionHeader) (inst : XFsblPs) (efuseSecCtrl : UInt32) :
    Prop where
  toPl : h.toPl = true
  unsigned : h.authenticated = false
  valid : validatePartitionHeader h inst.processorID inst.resetReason efuseSecCtrl = xfsblSuccess
  address : b.psDdr = false → checkValidMemoryAddressDdrLess h.destinationLoadAddress
    (h.effectiveCpu inst.processorID) h.getDestinationDevice = xfsblSuccess

/-- The machine under the load of a bitstream. -/
structure PlLoadHw extends PlHw where
  /-- `XFsbl_ConfigureMemory`: its status and the memory it leaves. -/
  configureMemory : UInt32 × Mem
  pmuSleeps : Bool
  /-- `DeviceCopy` of the partition. -/
  deviceCopy : UInt32
  aesInitialize : UInt32
  hookBeforeBSDownload : UInt32
  pcapInit : UInt32
  /-- `DeviceCopy` of the `i`-th chunk that is hashed, and of the checksum. -/
  checksumChunk : Nat → UInt32
  checksumCopy : UInt32
  aesKeyLoad : Nat → UInt32
  /-- The wait for a chunk on its way to the AES engine. -/
  aesChunkWait : Nat → UInt32
  plWaitForDone : UInt32
  hookAfterBSDownload : UInt32

def ensure (p : Prop) [Decidable p] (code : UInt32) : Pl Unit :=
  if p then pure () else throw (.status code)

def ofExcept {α : Type} : Except UInt32 α → Pl α
  | .ok a => pure a
  | .error code => throw (.status code)

section Load

variable (b : PlBuild) (hw : PlLoadHw) (h : PartitionHeader) (inst : XFsblPs)

/-! ## Copy -/

/-- What the copy step left: the memory, and the range it wrote. -/
structure PlCopy where
  mem : Mem
  range : Option (Nat × Nat)

/-- `XFsbl_PartitionCopy` for a bitstream that is not signed. -/
def partitionCopy : Pl PlCopy :=
  if h.unEncryptedDataWordLength = 0 then pure ⟨hw.ddr, none⟩
  else if inst.resetReason = xfsblPsOnlyReset then pure ⟨hw.ddr, none⟩
  -- in case of PL load from OCM, skip copying
  else if h.destinationLoadAddress = xfsblDummyPlAddr ∧ b.plLoadFromOcm then pure ⟨hw.ddr, none⟩
  else do
    let destinationCpu := h.effectiveCpu inst.processorID
    let length := copyLength h
    let loadAddress ← ofExcept (getLoadAddress destinationCpu
      (plLoadAddress h h.destinationLoadAddress) length)
    ensure (hw.configureMemory.1 = xfsblSuccess) hw.configureMemory.1
    if destinationCpu = xihPhAttrbDestCpuPmu ∧ hw.pmuSleeps = false then throw .hang
    else do
      ensure (hw.deviceCopy = xfsblSuccess) hw.deviceCopy
      let flash : Mem := fun i => hw.flash (srcAddress inst h + .ofNat i)
      pure ⟨hw.configureMemory.2.fill loadAddress.toNat length.toNat flash,
        some (loadAddress.toNat, length.toNat)⟩

/-! ## Checksum -/

/-- What `XFsbl_ShaUpdate_DdrLess` hashes, from its `i`-th chunk on: it stops at a chunk that cannot be
copied, and its caller does not look. -/
def shaUpdateChunks (rest : UInt32) : Nat → Nat → UInt32 → List UInt8
  | i, 0, startAddrByte =>
    if rest ≠ 0 ∧ hw.checksumChunk i = xfsblSuccess then hw.flashRead startAddrByte rest.toNat else []
  | i, numChunks + 1, startAddrByte =>
    if hw.checksumChunk i ≠ xfsblSuccess then []
    else hw.flashRead startAddrByte chunkMax.toNat ++
      shaUpdateChunks rest (i + 1) numChunks (startAddrByte + chunkMax)

/-- `XFsbl_CalculateCheckSum`. -/
def calculateCheckSum (c : PlCopy) (loadAddress : Nat) : Digest :=
  let length := h.totalDataWordLength * 4
  if b.plLoadFromOcm then
    hw.sha3 (shaUpdateChunks hw (length % chunkMax) 0 (length / chunkMax).toNat (srcAddress inst h))
  else hw.sha3 (c.mem.load loadAddress length.toNat)

def checkPartitionChecksum (c : PlCopy) (loadAddress : Nat) : Pl Unit := do
  if h.getChecksumType = xihPhAttrbNochecksum then pure ()
  else do
    ensure (h.getChecksumType = xihPhAttrbHashSha3) xfsblErrorPartitionChecksumFailed
    ensure (hw.checksumCopy = xfsblSuccess) hw.checksumCopy
    let hash := hw.flashRead (inst.imageOffsetAddress + h.checksumWordOffset * 4) 48
    ensure (hash = (calculateCheckSum b hw h inst c loadAddress).toList) xfsblFailure

/-! ## Decryption in chunks -/

/-- `XSECURE_CSU_AES_DEVICE_COPY_ERROR`. -/
def aesDeviceCopyError : UInt32 := 0x3

/-- `XSecure_ReadNPassChunkToAes`. -/
def readNPassChunkToAes (srcAddr length : UInt32) : Pl UInt32 := do
  let status ← ask hw.copyStatus
  if status ≠ xfsblSuccess then pure aesDeviceCopyError
  else do
    xsecureSssSetup ⟨some .aes, some .srcDma, none⟩
    xcsuDmaTransfer hw.readBuffer (length / 4)
      ((hw.flashRead srcAddr length.toNat).take (length.toNat / 4 * 4))
    ask hw.aesChunkWait

/-- `XSecure_AesChunkDecrypt`. The status of the wait for the PCAP is dropped. -/
def xsecureAesChunkDecrypt (remainingBytes : UInt32) : Nat → UInt32 → Pl UInt32
  | 0, src =>
    if remainingBytes = 0 then pure xfsblSuccess
    else do
      let status ← readNPassChunkToAes hw src remainingBytes
      if status ≠ xfsblSuccess then pure status
      else do
        let _ ← ask hw.pcapWaitForDone
        pure xfsblSuccess
  | numChunks + 1, src => do
    let status ← readNPassChunkToAes hw src chunkMax
    if status ≠ xfsblSuccess then pure status
    else do
      let _ ← ask hw.pcapWaitForDone
      xsecureAesChunkDecrypt remainingBytes numChunks (src + chunkMax)

/-- `XSecure_AesDecryptBlk` with chunking, behind the IV; the secure header has no data in front. -/
def aesPushChunkedBlk (blk : AesBlock) (src len : UInt32) (secureHeader : Bool) : Pl UInt32 := do
  let status ← (if secureHeader then pure xfsblSuccess
    else xsecureAesChunkDecrypt hw (len % chunkMax) (len / chunkMax).toNat src)
  if status ≠ xfsblSuccess then pure status
  else do
    let status ← readNPassChunkToAes hw (src + len) (.ofNat secureHdrSize)
    if status ≠ xfsblSuccess then pure status
    else do
      let status ← readNPassChunkToAes hw (src + len + .ofNat secureHdrSize) (.ofNat secureGcmTagSize)
      if status ≠ xfsblSuccess then pure status
      else if blk.aesWait ≠ xfsblSuccess then pure blk.aesWait
      else pure (if blk.gcmTagOk then xfsblSuccess else aesGcmTagMismatch)

/-- The block loop of `XSecure_AesDecrypt`; an engine without an answer hangs. -/
def aesDecryptBlocks (size : UInt32) :
    List AesBlock → Vector UInt32 4 → UInt32 → UInt32 → UInt32 → Bool → Pl UInt32
  | [], _, _, _, _, _ => throw .hang
  | blk :: blocks, iv, srcAddr, nextBlkLen, currentImgLen, secureHeader => do
    xcsuDmaTransfer 0 4 (iv.toList.flatMap fun w => leBytes 4 w.toNat)
    let status ← (if blk.ivWait ≠ xfsblSuccess then pure blk.ivWait
      else aesPushChunkedBlk hw blk srcAddr nextBlkLen secureHeader)
    if status ≠ xfsblSuccess then pure status
    else
      let srcAddr := srcAddr + nextBlkLen + .ofNat secureHdrSize + .ofNat secureGcmTagSize
      let nextBlkLen := xilHtonl blk.iv[3] * 4
      let currentImgLen := currentImgLen + nextBlkLen
      if nextBlkLen = 0 then
        pure (if currentImgLen ≠ size then aesImageLenMismatch else xfsblSuccess)
      else if currentImgLen > size then pure aesImageLenMismatch
      else do
        let status ← ask hw.aesKeyLoad
        if status ≠ xfsblSuccess then pure status
        else aesDecryptBlocks size blocks blk.iv srcAddr nextBlkLen currentImgLen false

/-- `XSecure_AesDecrypt` to the PCAP, with chunking: `src` is the flash address. -/
def xsecureAesDecrypt (src length : UInt32) : Pl UInt32 := do
  if length = 0 then throw .hang
  else do
    let status ← ask hw.aesKeyLoad
    let status ← (if status ≠ xfsblSuccess then pure status
      else aesDecryptBlocks hw length hw.aesBlocks hw.fsblIv src 0 0 true)
    pure (status ||| hw.aesKeyZero)

/-! ## Validation -/

/-- The machine with the memory the copy left. -/
def PlLoadHw.behind (c : PlCopy) : PlHw := { hw.toPlHw with ddr := c.mem }

/-- The download of a bitstream that is not signed. The status of a plain one is overwritten. -/
def downloadBitstream (c : PlCopy) (loadAddress : Nat) : Pl Unit := do
  let measure := tpmMeasurePl (hw.behind c) b.psDdr inst.imageOffsetAddress h loadAddress
  if h.encrypted then do
    let status ← (if b.plLoadFromOcm then
        xsecureAesDecrypt hw (srcAddress inst h) (h.unEncryptedDataWordLength * 4)
      else measure)
    ensure (status = xfsblSuccess) xfsblErrorBitstreamDecryptionFail
  else do
    let _ ← measure
    pure ()

/-- Behind the download. -/
def afterBitstream : Pl Unit := do
  ensure (hw.plWaitForDone = xfsblSuccess) hw.plWaitForDone
  ensure (hw.hookAfterBSDownload = xfsblSuccess) xfsblErrorHookAfterBitstreamDownload

/-- In front of it. -/
def checkPartition (c : PlCopy) (loadAddress : Nat) : Pl Unit := do
  ensure (h.encrypted = false ∨ hw.aesInitialize = xfsblSuccess) xfsblErrorAesInitialize
  ensure (hw.hookBeforeBSDownload = xfsblSuccess) xfsblErrorHookBeforeBitstreamDownload
  ensure (hw.pcapInit = xfsblSuccess) hw.pcapInit
  checkPartitionChecksum b hw h inst c loadAddress

/-- `XFsbl_PartitionValidation` for a bitstream that is not signed. -/
def partitionValidation (c : PlCopy) : Pl Unit :=
  if inst.resetReason = xfsblPsOnlyReset then pure ()
  else do
    let loadAddress ← ofExcept (getLoadAddress (h.effectiveCpu inst.processorID)
      h.destinationLoadAddress (h.totalDataWordLength * 4))
    let loadAddress := (plLoadAddress h loadAddress).toNat
    checkPartition b hw h inst c loadAddress
    downloadBitstream b hw h inst c loadAddress
    afterBitstream hw

/-- `XFsbl_PartitionLoad` behind the validator, for a bitstream that is not signed. -/
def partitionLoad : Pl PlCopy := do
  let c ← partitionCopy b hw h inst
  partitionValidation b hw h inst c
  pure c

end Load

/-! ## What the sources should agree on -/

section Claim

variable (b : PlBuild) (hw : PlLoadHw) (h : PartitionHeader) (inst : XFsblPs)

/-- The partition's words in flash. -/
def partitionBytes : List UInt8 :=
  hw.flashRead (srcAddress inst h) (h.encryptedDataWordLength.toNat * 4)

/-- The memory a transfer takes the bitstream from, if it does not take it from the device. -/
def memorySource : Option (Nat × Nat) :=
  let loadAddress := placedStart h inst.processorID
  if h.encrypted then
    if b.plLoadFromOcm then none else some (loadAddress, h.encryptedDataWordLength.toNat * 4)
  else if b.psDdr then some (loadAddress, h.unEncryptedDataWordLength.toNat * 4)
  else none

/-- The copy step wrote every byte of the range. -/
def PlCopy.Wrote (c : PlCopy) (start len : Nat) : Prop :=
  ∀ x, start ≤ x → x < start + len → ∃ r, c.range = some r ∧ r.1 ≤ x ∧ x < r.1 + r.2

/-- Between the two states the partition's flash words, read in this run, went to the PL (those of an
encrypted bitstream through the AES engine), and one event over what was streamed was logged. -/
structure SourceAgrees (c : PlCopy) (s s' : PlState) : Prop where
  fresh : ∀ start len, memorySource b h inst = some (start, len) →
    c.Wrote start len ∧ c.mem.load start len = partitionBytes hw h inst
  sent : h.encrypted = false →
    (∃ chunks, s'.pcap = s.pcap ++ chunks ∧ chunks.flatten = partitionBytes hw h inst) ∧
      s'.streamed = partitionBytes hw h inst
  counted : s'.absorbed.length = s'.sha3Len.toNat
  logged : ∃ d, s'.events = s.events ++ [bitstreamEvent d] ∧ d = hw.sha3 s'.streamed

/-- The answers of device and PCAP to the transfer of a plain bitstream that starts at tick `t` are
those of success. -/
def TransferSucceeds (t : Nat) : Prop :=
  if b.psDdr then hw.pcapWaitForDone (t + 1) = xfsblSuccess
  else ∀ i, i * chunkMax.toNat < (h.unEncryptedDataWordLength * 4).toNat →
    hw.copyStatus (t + 3 * i) = xfsblSuccess ∧ hw.pcapWaitForDone (t + 3 * i + 2) = xfsblSuccess

/-- The copy of a bitstream that the transfer takes from memory is not skipped. -/
def CopyNotSkipped : Prop :=
  b.psDdr = true → b.plLoadFromOcm = true → h.destinationLoadAddress = xfsblDummyPlAddr →
    h.unEncryptedDataWordLength = 0

end Claim

/-! ## Steps without an event -/

/-- No event between the states. -/
def SameEvents (s t : PlState) : Prop := t.events = s.events

instance : IsPreorder PlState SameEvents where
  refl _ := rfl
  trans _ _ _ h h' := h'.trans h

section Frames

variable {b : PlBuild} {hw : PlLoadHw} {h : PartitionHeader} {inst : XFsblPs} {bs : List UInt8}

theorem sameEvents_ask {α : Type} (f : Nat → α) : Frame SameEvents (ask f) := fun _ => rfl

theorem sameEvents_sss (cfg : SssCfg) : Frame SameEvents (xsecureSssSetup cfg) := fun _ => rfl

theorem sameEvents_transfer (addr : Nat) (size : UInt32) :
    Frame SameEvents (xcsuDmaTransfer addr size bs) :=
  frame_ite (fun _ => frame_modify fun _ => rfl) fun _ => frame_throw _

theorem sameEvents_writeToPcap (hw : PlHw) (wrSize : UInt32) (wrAddr : Nat) :
    Frame SameEvents (plMeasureWriteToPcapWithSha3 hw wrSize wrAddr bs) := by
  refine frame_bind (sameEvents_sss _) fun _ => frame_bind (sameEvents_transfer _ _) fun _ => ?_
  refine frame_bind (frame_modify fun _ => rfl) fun _ => frame_bind (sameEvents_ask _) fun _ => ?_
  exact frame_ite (fun _ => frame_throw _) fun _ => sameEvents_ask _

theorem sameEvents_start : Frame SameEvents xsecureSha3Start := fun _ => rfl

theorem sameEvents_finish (hw : PlHw) : Frame SameEvents (xsecureSha3Finish hw) := fun _ => rfl

theorem sameEvents_measureChunks (hw : PlHw) (start remaining : UInt32) :
    Frame SameEvents (measureChunks hw start remaining) := by
  fun_induction measureChunks hw start remaining with
  | case1 start => exact frame_pure _
  | case2 start remaining hne chunk ih =>
    refine frame_bind (sameEvents_ask _) fun _ => frame_ite (fun _ => frame_pure _) fun _ => ?_
    refine frame_bind (sameEvents_writeToPcap _ _ _) fun _ => ?_
    exact frame_ite (fun _ => frame_pure _) fun _ => ih

theorem sameEvents_passToAes (hw : PlHw) (addr n : Nat) (wait : UInt32) :
    Frame SameEvents (passToAes hw addr n wait) :=
  frame_bind (sameEvents_transfer _ _) fun _ =>
    frame_bind (frame_modify fun _ => rfl) fun _ => frame_pure _

theorem sameEvents_aesPushBlk (hw : PlHw) (blk : AesBlock) (src tag : Nat) (len : UInt32)
    (secureHeader : Bool) : Frame SameEvents (aesPushBlk hw blk src tag len secureHeader) := by
  refine frame_bind (frame_ite (fun _ => frame_pure _) fun _ => sameEvents_passToAes _ _ _ _) fun _ => ?_
  refine frame_ite (fun _ => frame_pure _) fun _ => ?_
  refine frame_bind (sameEvents_passToAes _ _ _ _) fun _ => frame_ite (fun _ => frame_pure _) fun _ => ?_
  refine frame_bind (sameEvents_passToAes _ _ _ _) fun _ => frame_ite (fun _ => frame_pure _) fun _ => ?_
  exact frame_ite (fun _ => frame_pure _) fun _ => frame_pure _

theorem sameEvents_measureBlocks (hw : PlHw) {size : UInt32} {blocks : List AesBlock}
    {iv : Vector UInt32 4} {src tag : Nat} {next current : UInt32} {secureHeader : Bool} :
    Frame SameEvents (measureBlocks hw size blocks iv src tag next current secureHeader) := by
  induction blocks generalizing iv src tag next current secureHeader with
  | nil => exact frame_throw _
  | cons blk blocks ih =>
    refine frame_bind (frame_bind (sameEvents_transfer _ _) fun _ => ?_) fun _ => ?_
    · exact frame_ite (fun _ => frame_pure _) fun _ => sameEvents_aesPushBlk _ _ _ _ _ _
    · refine frame_ite (fun _ => frame_pure _) fun _ => ?_
      exact frame_ite (fun _ => frame_pure _) fun _ => frame_ite (fun _ => frame_pure _) fun _ => ih

theorem sameEvents_plMeasureUnencrypted (hw : PlHw) (sizeInWords : UInt32) (source : Nat) :
    Frame SameEvents (plMeasureUnencrypted hw sizeInWords source) :=
  frame_bind sameEvents_start fun _ => frame_bind (sameEvents_writeToPcap _ _ _) fun _ =>
    frame_bind (sameEvents_finish _) fun _ => frame_pure _

theorem sameEvents_plMeasureChunked (hw : PlHw) (n imageOffset dataWordOffset : UInt32) :
    Frame SameEvents (plMeasureChunked hw n imageOffset dataWordOffset) :=
  frame_bind sameEvents_start fun _ => frame_bind (sameEvents_measureChunks _ _ _) fun _ =>
    frame_bind (sameEvents_finish _) fun _ => frame_pure _

theorem sameEvents_plMeasureEncrypted (hw : PlHw) (source : Nat) (size : UInt32) :
    Frame SameEvents (plMeasureEncrypted hw source size) :=
  frame_bind (sameEvents_sss _) fun _ => frame_bind sameEvents_start fun _ =>
    frame_bind (sameEvents_measureBlocks _) fun _ =>
      frame_bind (sameEvents_finish _) fun _ => frame_pure _

/-! ### Decryption in chunks -/

theorem sameEvents_readNPassChunkToAes (src length : UInt32) :
    Frame SameEvents (readNPassChunkToAes hw src length) := by
  refine frame_bind (sameEvents_ask _) fun _ => frame_ite (fun _ => frame_pure _) fun _ => ?_
  refine frame_bind (sameEvents_sss _) fun _ => ?_
  exact frame_bind (sameEvents_transfer _ _) fun _ => sameEvents_ask _

theorem sameEvents_xsecureAesChunkDecrypt (rest : UInt32) (k : Nat) (src : UInt32) :
    Frame SameEvents (xsecureAesChunkDecrypt hw rest k src) := by
  induction k generalizing src with
  | zero =>
    refine frame_ite (fun _ => frame_pure _) fun _ => ?_
    refine frame_bind (sameEvents_readNPassChunkToAes _ _) fun _ => ?_
    refine frame_ite (fun _ => frame_pure _) fun _ => ?_
    exact frame_bind (sameEvents_ask _) fun _ => frame_pure _
  | succ k ih =>
    refine frame_bind (sameEvents_readNPassChunkToAes _ _) fun _ => ?_
    refine frame_ite (fun _ => frame_pure _) fun _ => ?_
    exact frame_bind (sameEvents_ask _) fun _ => ih _

theorem sameEvents_aesPushChunkedBlk (blk : AesBlock) (src len : UInt32) (secureHeader : Bool) :
    Frame SameEvents (aesPushChunkedBlk hw blk src len secureHeader) := by
  refine frame_bind (frame_ite (fun _ => frame_pure _) fun _ => ?_) fun _ => ?_
  · exact sameEvents_xsecureAesChunkDecrypt _ _ _
  refine frame_ite (fun _ => frame_pure _) fun _ => ?_
  refine frame_bind (sameEvents_readNPassChunkToAes _ _) fun _ => frame_ite (fun _ => frame_pure _) fun _ => ?_
  refine frame_bind (sameEvents_readNPassChunkToAes _ _) fun _ => frame_ite (fun _ => frame_pure _) fun _ => ?_
  exact frame_ite (fun _ => frame_pure _) fun _ => frame_pure _

theorem sameEvents_aesDecryptBlocks {size : UInt32} {blocks : List AesBlock} {iv : Vector UInt32 4}
    {src next current : UInt32} {secureHeader : Bool} :
    Frame SameEvents (aesDecryptBlocks hw size blocks iv src next current secureHeader) := by
  induction blocks generalizing iv src next current secureHeader with
  | nil => exact frame_throw _
  | cons blk blocks ih =>
    refine frame_bind (sameEvents_transfer _ _) fun _ => frame_bind ?_ fun _ => ?_
    · exact frame_ite (fun _ => frame_pure _) fun _ => sameEvents_aesPushChunkedBlk _ _ _ _
    · refine frame_ite (fun _ => frame_pure _) fun _ => ?_
      refine frame_ite (fun _ => frame_pure _) fun _ => frame_ite (fun _ => frame_pure _) fun _ => ?_
      exact frame_bind (sameEvents_ask _) fun _ => frame_ite (fun _ => frame_pure _) fun _ => ih

theorem sameEvents_xsecureAesDecrypt (src length : UInt32) :
    Frame SameEvents (xsecureAesDecrypt hw src length) := by
  refine frame_ite (fun _ => frame_throw _) fun _ => frame_bind (sameEvents_ask _) fun _ => ?_
  refine frame_bind (frame_ite (fun _ => frame_pure _) fun _ => ?_) fun _ => frame_pure _
  exact sameEvents_aesDecryptBlocks

end Frames

/-! ## One measurement -/

section Measured

variable {hw : PlHw} {psDdr : Bool} {imageOffset : UInt32} {h : PartitionHeader} {source : Nat}
  {s s' : PlState} {status : UInt32}

/-- An event on success, and none otherwise. -/
theorem tpmMeasurePl_events (hrun : tpmMeasurePl hw psDdr imageOffset h source s = .ok status s') :
    (status = xfsblSuccess ∧ ∃ d, s'.events = s.events ++ [bitstreamEvent d]) ∨
      status ≠ xfsblSuccess ∧ s'.events = s.events := by
  have logged {m : Pl (UInt32 × Digest)} (hm : Frame SameEvents m)
      (hrun : (m >>= logBitstream) s = .ok status s') :
      (status = xfsblSuccess ∧ ∃ d, s'.events = s.events ++ [bitstreamEvent d]) ∨
        status ≠ xfsblSuccess ∧ s'.events = s.events := by
    obtain ⟨r, t, hmeasure, hlog⟩ := bind_ok.1 hrun
    have ht : t.events = s.events := hm.ok hmeasure
    by_cases hr : r.1 ≠ xfsblSuccess
    · unfold logBitstream at hlog
      rw [if_pos hr] at hlog
      obtain ⟨rfl, rfl⟩ := pure_ok.1 hlog
      exact .inr ⟨hr, ht⟩
    · unfold logBitstream at hlog
      rw [if_neg hr] at hlog
      obtain ⟨_, u, hmod, hlog⟩ := bind_ok.1 hlog
      obtain ⟨rfl, rfl⟩ := pure_ok.1 hlog
      rw [modify_ok] at hmod
      subst hmod
      exact .inl ⟨not_not.1 hr, r.2, congrArg (· ++ _) ht⟩
  by_cases henc : h.encrypted = false
  · cases psDdr with
    | true =>
      rw [tpmMeasurePl_eq_ddr henc] at hrun
      exact logged (sameEvents_plMeasureUnencrypted _ _ _) hrun
    | false =>
      rw [tpmMeasurePl_eq_chunks henc] at hrun
      exact logged (sameEvents_plMeasureChunked _ _ _ _) hrun
  · rw [Bool.not_eq_false] at henc
    rw [tpmMeasurePl_eq_encrypted henc] at hrun
    exact logged (sameEvents_plMeasureEncrypted _ _ _) hrun

/-- What a plain bitstream brings to the PCAP. -/
theorem tpmMeasurePl_sent (henc : h.encrypted = false)
    (hrun : tpmMeasurePl hw psDdr imageOffset h source s = .ok xfsblSuccess s') :
    ∃ chunks, s'.pcap = s.pcap ++ chunks ∧ chunks.flatten =
      if psDdr then hw.ddr.load source (h.unEncryptedDataWordLength.toNat * 4)
      else hw.flashRead (imageOffset + 4 * h.dataWordOffset) (h.unEncryptedDataWordLength * 4).toNat := by
  cases psDdr with
  | true =>
    rw [tpmMeasurePl_eq_ddr henc] at hrun
    obtain ⟨r, v, hmeasure, hlog⟩ := bind_ok.1 hrun
    obtain ⟨-, rfl⟩ := logBitstream_ok hlog
    have hpcap := plMeasureUnencrypted_took hmeasure
    exact ⟨_, hpcap, by simp⟩
  | false =>
    rw [tpmMeasurePl_eq_chunks henc] at hrun
    obtain ⟨r, v, hmeasure, hlog⟩ := bind_ok.1 hrun
    obtain ⟨hr, rfl⟩ := logBitstream_ok hlog
    obtain ⟨chunks, hpcap, hflat, -⟩ := plMeasureChunked_took hmeasure hr
    exact ⟨chunks, hpcap, hflat⟩

/-! ### Its status -/

theorem plMeasureWriteToPcapWithSha3_status {n : UInt32} {wrAddr : Nat} {bs : List UInt8}
    (hrun : plMeasureWriteToPcapWithSha3 hw n wrAddr bs s = .ok status s') :
    status = hw.pcapWaitForDone (s.tick + 1) ∧ s'.tick = s.tick + 2 := by
  unfold plMeasureWriteToPcapWithSha3 at hrun
  obtain ⟨_, t, hsetup, hrun⟩ := bind_ok.1 hrun
  rw [xsecureSssSetup, modify_ok] at hsetup
  obtain ⟨_, u, htransfer, hrun⟩ := bind_ok.1 hrun
  have htick : u.tick = s.tick := by
    unfold xcsuDmaTransfer at htransfer
    split at htransfer
    · rw [modify_ok] at htransfer
      subst htransfer hsetup
      rfl
    · simp at htransfer
  obtain ⟨_, v, hlen, hrun⟩ := bind_ok.1 hrun
  rw [modify_ok] at hlen
  obtain ⟨done, x, hdone, hrun⟩ := bind_ok.1 hrun
  cases hdone
  split at hrun
  · simp at hrun
  · cases hrun
    subst hlen
    rw [← htick]
    exact ⟨rfl, rfl⟩

theorem chunk_index (remaining : UInt32) (i : Nat) :
    i * chunkMax.toNat < (remaining - chunkSize remaining).toNat ↔
      (i + 1) * chunkMax.toNat < remaining.toNat := by
  rw [UInt32.toNat_sub_of_le _ _ (chunkSize_le remaining), Nat.succ_mul]
  have hmax := chunkSize_le_max remaining
  unfold chunkSize at hmax ⊢
  by_cases hge : remaining ≥ chunkMax
  · rw [if_pos hge]
    omega
  · rw [if_neg hge] at hmax ⊢
    omega

/-- The loop succeeds where every copy and every wait for the PCAP does. -/
theorem measureChunks_status {start remaining : UInt32}
    (hrun : measureChunks hw start remaining s = .ok status s') :
    status = xfsblSuccess ↔ ∀ i, i * chunkMax.toNat < remaining.toNat →
      hw.copyStatus (s.tick + 3 * i) = xfsblSuccess ∧
        hw.pcapWaitForDone (s.tick + 3 * i + 2) = xfsblSuccess := by
  fun_induction measureChunks hw start remaining generalizing s with
  | case1 start =>
    obtain ⟨rfl, -⟩ := pure_ok.1 hrun
    simp
  | case2 start remaining hne chunk =>
    rename_i ih
    have hpos : 0 * chunkMax.toNat < remaining.toNat := by
      rw [Nat.zero_mul, Nat.pos_iff_ne_zero]
      exact fun h0 => hne (UInt32.toNat_inj.1 h0)
    obtain ⟨copyStatus, t, hcopy, hrun⟩ := bind_ok.1 hrun
    cases hcopy
    by_cases hc : hw.copyStatus s.tick ≠ xfsblSuccess
    · rw [if_pos hc] at hrun
      obtain ⟨rfl, -⟩ := pure_ok.1 hrun
      exact iff_of_false hc fun hall => hc (hall 0 hpos).1
    rw [if_neg hc] at hrun
    obtain ⟨st, u, hwrite, hrun⟩ := bind_ok.1 hrun
    obtain ⟨rfl, htick⟩ := plMeasureWriteToPcapWithSha3_status hwrite
    split at hrun
    · rename_i hs
      obtain ⟨rfl, -⟩ := pure_ok.1 hrun
      exact iff_of_false hs fun hall => hs (hall 0 hpos).2
    · rename_i hs
      have hut : u.tick = s.tick + 3 := htick
      rw [ih hrun, hut]
      constructor
      · intro hall i hi
        cases i with
        | zero => exact ⟨not_not.1 hc, not_not.1 hs⟩
        | succ i =>
          have hi' := hall i ((chunk_index remaining i).2 hi)
          rwa [show s.tick + 3 + 3 * i = s.tick + 3 * (i + 1) by omega] at hi'
      · intro hall i hi
        have hi' := hall (i + 1) ((chunk_index remaining i).1 hi)
        rwa [show s.tick + 3 * (i + 1) = s.tick + 3 + 3 * i by omega] at hi'

/-- A plain bitstream is sent and logged where device and PCAP say so. -/
theorem tpmMeasurePl_status (henc : h.encrypted = false)
    (hrun : tpmMeasurePl hw psDdr imageOffset h source s = .ok status s') :
    status = xfsblSuccess ↔
      if psDdr then hw.pcapWaitForDone (s.tick + 1) = xfsblSuccess
      else ∀ i, i * chunkMax.toNat < (h.unEncryptedDataWordLength * 4).toNat →
        hw.copyStatus (s.tick + 3 * i) = xfsblSuccess ∧
          hw.pcapWaitForDone (s.tick + 3 * i + 2) = xfsblSuccess := by
  have returned {r : UInt32 × Digest} {t : PlState} (hlog : logBitstream r t = .ok status s') :
      status = r.1 := by
    unfold logBitstream at hlog
    split at hlog
    · exact (pure_ok.1 hlog).1.symm
    · obtain ⟨_, u, -, hlog⟩ := bind_ok.1 hlog
      exact (pure_ok.1 hlog).1.symm
  cases psDdr with
  | true =>
    rw [tpmMeasurePl_eq_ddr henc] at hrun
    obtain ⟨r, v, hmeasure, hlog⟩ := bind_ok.1 hrun
    obtain ⟨_, t, hstart, hmeasure⟩ := bind_ok.1 hmeasure
    obtain ⟨st, u, hwrite, hmeasure⟩ := bind_ok.1 hmeasure
    obtain ⟨d, x, -, hmeasure⟩ := bind_ok.1 hmeasure
    obtain ⟨rfl, -⟩ := pure_ok.1 hmeasure
    obtain rfl := xsecureSha3Start_ok hstart
    obtain ⟨rfl, -⟩ := plMeasureWriteToPcapWithSha3_status hwrite
    rw [returned hlog]
    exact Iff.rfl
  | false =>
    rw [tpmMeasurePl_eq_chunks henc] at hrun
    obtain ⟨r, v, hmeasure, hlog⟩ := bind_ok.1 hrun
    obtain ⟨_, t, hstart, hmeasure⟩ := bind_ok.1 hmeasure
    obtain ⟨st, u, hchunks, hmeasure⟩ := bind_ok.1 hmeasure
    obtain ⟨d, x, -, hmeasure⟩ := bind_ok.1 hmeasure
    obtain ⟨rfl, -⟩ := pure_ok.1 hmeasure
    obtain rfl := xsecureSha3Start_ok hstart
    have hstatus := measureChunks_status hchunks
    rw [returned hlog]
    exact hstatus

end Measured

/-! ## The load, taken apart -/

section Loaded

variable {b : PlBuild} {hw : PlLoadHw} {h : PartitionHeader} {inst : XFsblPs} {c : PlCopy}
  {s s' : PlState} {u : Unit} {code : UInt32}

theorem ensure_ok {p : Prop} [Decidable p] : ensure p code s = .ok u s' ↔ p ∧ s = s' := by
  unfold ensure
  split <;> simp [*]

theorem ofExcept_ok {α : Type} {x : Except UInt32 α} {a : α} :
    ofExcept x s = .ok a s' ↔ x = .ok a ∧ s = s' := by
  cases x <;> simp [ofExcept]

/-- The copy step copies nothing. -/
def CopySkipped (b : PlBuild) (h : PartitionHeader) (inst : XFsblPs) : Prop :=
  h.unEncryptedDataWordLength = 0 ∨ inst.resetReason = xfsblPsOnlyReset ∨
    h.destinationLoadAddress = xfsblDummyPlAddr ∧ b.plLoadFromOcm = true

/-- What the copy step leaves if it copies. -/
def placedCopy (hw : PlLoadHw) (h : PartitionHeader) (inst : XFsblPs) : PlCopy :=
  let start := placedStart h inst.processorID
  let length := (copyLength h).toNat
  ⟨hw.configureMemory.2.fill start length fun i => hw.flash (srcAddress inst h + .ofNat i),
    some (start, length)⟩

theorem partitionCopy_ok (hc : partitionCopy b hw h inst s = .ok c s') :
    s = s' ∧ (CopySkipped b h inst ∧ c = ⟨hw.ddr, none⟩ ∨
      ¬ CopySkipped b h inst ∧ c = placedCopy hw h inst) := by
  unfold partitionCopy at hc
  split at hc
  · rename_i h0
    obtain ⟨rfl, rfl⟩ := pure_ok.1 hc
    exact ⟨rfl, .inl ⟨.inl h0, rfl⟩⟩
  rename_i h0
  split at hc
  · rename_i hr
    obtain ⟨rfl, rfl⟩ := pure_ok.1 hc
    exact ⟨rfl, .inl ⟨.inr (.inl hr), rfl⟩⟩
  rename_i hr
  split at hc
  · rename_i hd
    obtain ⟨rfl, rfl⟩ := pure_ok.1 hc
    exact ⟨rfl, .inl ⟨.inr (.inr hd), rfl⟩⟩
  rename_i hd
  obtain ⟨loadAddress, t, hx, hc⟩ := bind_ok.1 hc
  obtain ⟨haddr, rfl⟩ := ofExcept_ok.1 hx
  obtain ⟨_, t, hmem, hc⟩ := bind_ok.1 hc
  obtain ⟨-, rfl⟩ := ensure_ok.1 hmem
  split at hc
  · simp at hc
  obtain ⟨_, t, hcopy, hc⟩ := bind_ok.1 hc
  obtain ⟨-, rfl⟩ := ensure_ok.1 hcopy
  obtain ⟨rfl, rfl⟩ := pure_ok.1 hc
  refine ⟨rfl, .inr ⟨?_, ?_⟩⟩
  · rintro (h | h | h)
    · exact h0 h
    · exact hr h
    · exact hd h
  · rw [getLoadAddress_ok haddr]
    rfl

theorem checkPartition_ok {loadAddress : Nat}
    (hc : checkPartition b hw h inst c loadAddress s = .ok u s') : s = s' := by
  unfold checkPartition at hc
  obtain ⟨_, t, h1, hc⟩ := bind_ok.1 hc
  obtain ⟨-, rfl⟩ := ensure_ok.1 h1
  obtain ⟨_, t, h2, hc⟩ := bind_ok.1 hc
  obtain ⟨-, rfl⟩ := ensure_ok.1 h2
  obtain ⟨_, t, h3, hc⟩ := bind_ok.1 hc
  obtain ⟨-, rfl⟩ := ensure_ok.1 h3
  unfold checkPartitionChecksum at hc
  split at hc
  · exact (pure_ok.1 hc).2
  · obtain ⟨_, t, h4, hc⟩ := bind_ok.1 hc
    obtain ⟨-, rfl⟩ := ensure_ok.1 h4
    obtain ⟨_, t, h5, hc⟩ := bind_ok.1 hc
    obtain ⟨-, rfl⟩ := ensure_ok.1 h5
    exact (ensure_ok.1 hc).2

/-- The download starts in the state before the load, from where the copy step placed the partition. -/
theorem partitionValidation_ok (hreset : inst.resetReason ≠ xfsblPsOnlyReset)
    (hv : partitionValidation b hw h inst c s = .ok u s') :
    downloadBitstream b hw h inst c (placedStart h inst.processorID) s = .ok () s' := by
  unfold partitionValidation at hv
  rw [if_neg hreset] at hv
  obtain ⟨loadAddress, t, hx, hv⟩ := bind_ok.1 hv
  obtain ⟨haddr, rfl⟩ := ofExcept_ok.1 hx
  have hplaced : (plLoadAddress h loadAddress).toNat = placedStart h inst.processorID := by
    unfold placedStart
    rw [getLoadAddress_ok haddr, globalAddress_pl]
  simp only [hplaced] at hv
  obtain ⟨_, t, hcheck, hv⟩ := bind_ok.1 hv
  obtain rfl := checkPartition_ok hcheck
  obtain ⟨_, t, hdown, hv⟩ := bind_ok.1 hv
  unfold afterBitstream at hv
  obtain ⟨_, x, h1, hv⟩ := bind_ok.1 hv
  obtain ⟨-, rfl⟩ := ensure_ok.1 h1
  obtain ⟨-, rfl⟩ := ensure_ok.1 hv
  exact hdown

/-- Nothing moves over a PS-only reset. -/
theorem partitionLoad_kept (hreset : inst.resetReason = xfsblPsOnlyReset)
    (hload : partitionLoad b hw h inst s = .ok c s') : s' = s := by
  obtain ⟨_, t, hcopy, hload⟩ := bind_ok.1 hload
  obtain ⟨rfl, -⟩ := partitionCopy_ok hcopy
  obtain ⟨_, t, hv, hload⟩ := bind_ok.1 hload
  unfold partitionValidation at hv
  rw [if_pos hreset] at hv
  obtain ⟨-, rfl⟩ := pure_ok.1 hv
  exact (pure_ok.1 hload).2.symm

theorem partitionLoad_ok (hreset : inst.resetReason ≠ xfsblPsOnlyReset)
    (hload : partitionLoad b hw h inst s = .ok c s') :
    (CopySkipped b h inst ∧ c = ⟨hw.ddr, none⟩ ∨
      ¬ CopySkipped b h inst ∧ c = placedCopy hw h inst) ∧
      downloadBitstream b hw h inst c (placedStart h inst.processorID) s = .ok () s' := by
  obtain ⟨_, t, hx, hload⟩ := bind_ok.1 hload
  obtain ⟨rfl, hcopy⟩ := partitionCopy_ok hx
  obtain ⟨_, t, hv, hload⟩ := bind_ok.1 hload
  obtain ⟨rfl, rfl⟩ := pure_ok.1 hload
  exact ⟨hcopy, partitionValidation_ok hreset hv⟩

/-- A plain bitstream, whatever the measurement returns. -/
theorem downloadBitstream_plain {loadAddress : Nat} (henc : h.encrypted = false)
    (hd : downloadBitstream b hw h inst c loadAddress s = .ok u s') :
    ∃ status, tpmMeasurePl (hw.behind c) b.psDdr inst.imageOffsetAddress h loadAddress s =
      .ok status s' := by
  unfold downloadBitstream at hd
  rw [henc, if_neg Bool.false_ne_true] at hd
  obtain ⟨status, t, hmeasure, hd⟩ := bind_ok.1 hd
  obtain ⟨-, rfl⟩ := pure_ok.1 hd
  exact ⟨status, hmeasure⟩

/-- An encrypted one has no event, or one that the driver did not count for. -/
theorem downloadBitstream_encrypted {loadAddress : Nat} (henc : h.encrypted = true)
    (hd : downloadBitstream b hw h inst c loadAddress s = .ok u s') :
    s'.events = s.events ∨ s'.sha3Len = 0 ∧ 16 ≤ s'.absorbed.length := by
  unfold downloadBitstream at hd
  rw [henc, if_pos rfl] at hd
  obtain ⟨status, t, hmeasure, hd⟩ := bind_ok.1 hd
  obtain ⟨rfl, rfl⟩ := ensure_ok.1 hd
  split at hmeasure
  · exact .inl ((sameEvents_xsecureAesDecrypt _ _).ok hmeasure)
  · exact .inr (tpmMeasurePl_encrypted henc hmeasure)

theorem load_flash (a : UInt32) (k : Nat) :
    Mem.load (fun i => hw.flash (a + .ofNat i)) 0 k = hw.flashRead a k := by
  apply List.ext_getElem?
  intro i
  unfold PlHw.flashRead
  rw [Mem.getElem?_load, List.getElem?_map, Nat.zero_add]
  split
  · rw [List.getElem?_range (by assumption)]
    rfl
  · rw [List.getElem?_eq_none (by rw [List.length_range]; omega)]
    rfl

/-- A copied range whose bytes are the flash's. -/
theorem placedCopy_fresh {k : Nat} (hk : k ≤ (copyLength h).toNat) :
    (placedCopy hw h inst).Wrote (placedStart h inst.processorID) k ∧
      (placedCopy hw h inst).mem.load (placedStart h inst.processorID) k =
        hw.flashRead (srcAddress inst h) k := by
  refine ⟨fun x h1 h2 => ⟨_, rfl, h1, ?_⟩, ?_⟩
  · show x < placedStart h inst.processorID + (copyLength h).toNat
    omega
  · rw [← load_flash]
    show (Mem.fill _ _ (copyLength h).toNat fun i => hw.flash (srcAddress inst h + .ofNat i)).load _ k = _
    exact Mem.load_fill hk

/-- The lengths of an accepted bitstream that is not encrypted. -/
theorem PlBuild.Accepts.lengths {efuseSecCtrl : UInt32} (ha : b.Accepts h inst efuseSecCtrl)
    (henc : h.encrypted = false) :
    h.encryptedDataWordLength = h.unEncryptedDataWordLength ∧
      copyLength h = h.unEncryptedDataWordLength * 4 := by
  have hl : partitionLengthsOk h = true := by simpa using (validatePartitionHeader_success ha.valid).lengths
  simp only [partitionLengthsOk, ha.unsigned, henc, Bool.and_eq_true, beq_iff_eq] at hl
  refine ⟨hl.1.symm, ?_⟩
  unfold copyLength
  rw [ha.unsigned, hl.1, hl.2]
  rfl

theorem start_eq : inst.imageOffsetAddress + 4 * h.dataWordOffset = srcAddress inst h := by
  rw [UInt32.mul_comm]
  rfl

/-- A plain bitstream whose measurement succeeds, with its copy not skipped. -/
theorem sourceAgrees_of_success {efuseSecCtrl : UInt32} (ha : b.Accepts h inst efuseSecCtrl)
    (henc : h.encrypted = false) (hfits : SizeFits b.psDdr h)
    (hfresh : b.psDdr = true → h.unEncryptedDataWordLength ≤ xcsudmaSizeMax →
      c.Wrote (placedStart h inst.processorID) (h.unEncryptedDataWordLength.toNat * 4) ∧
        c.mem.load (placedStart h inst.processorID) (h.unEncryptedDataWordLength.toNat * 4) =
          partitionBytes hw h inst)
    (hrun : tpmMeasurePl (hw.behind c) b.psDdr inst.imageOffsetAddress h
      (placedStart h inst.processorID) s = .ok xfsblSuccess s') :
    SourceAgrees b hw h inst c s s' := by
  have hlen := (ha.lengths henc).1
  obtain ⟨n, r, v, hfinished, hcount, rfl⟩ := tpmMeasurePl_plain henc hfits hrun
  obtain ⟨chunks, hpcap, hflat⟩ := tpmMeasurePl_sent henc hrun
  have hddr (hd : b.psDdr = true) : h.unEncryptedDataWordLength ≤ xcsudmaSizeMax := by
    rw [hd] at hrun
    exact (tpmMeasurePl_ddr henc hrun).1
  -- what the transfer took is the partition in flash
  have hbytes : partition (hw.behind c) b.psDdr inst.imageOffsetAddress h
      (placedStart h inst.processorID) = partitionBytes hw h inst := by
    unfold partition
    rw [henc, if_neg Bool.false_ne_true]
    split
    · rename_i hd
      exact (hfresh hd (hddr hd)).2
    · rw [start_eq, partitionBytes, hlen]
      rfl
  have hevents : v.events = s.events := by
    rcases tpmMeasurePl_events hrun with ⟨-, d, hd⟩ | ⟨hne, -⟩
    · exact (List.append_inj' hd rfl).1
    · exact absurd rfl hne
  refine ⟨fun start len hsource => ?_, fun _ => ⟨⟨chunks, hpcap, ?_⟩, ?_⟩, ?_, r.2, ?_, ?_⟩
  · unfold memorySource at hsource
    rw [henc, if_neg Bool.false_ne_true] at hsource
    split at hsource
    · rename_i hd
      obtain ⟨rfl, rfl⟩ := Prod.mk.inj (Option.some.inj hsource)
      exact hfresh hd (hddr hd)
    · cases hsource
  · rw [hflat, ← hbytes]
    unfold partition
    rw [henc, if_neg Bool.false_ne_true]
    split
    · rfl
    · rename_i hd
      rw [toNat_bytes (hfits.resolve_left hd)]
  · show v.streamed = _
    rw [hfinished.streamed, hbytes]
  · show v.absorbed.length = v.sha3Len.toNat
    rw [hfinished.absorbed, hfinished.sha3Len, hcount]
  · show v.events ++ _ = _
    rw [hevents]
  · show r.2 = hw.sha3 v.streamed
    rw [hfinished.streamed, hfinished.digest, PlHw.sha3, hcount]
    rfl

end Loaded

/-! ## A load that fails -/

section Failed

variable {b : PlBuild} {hw : PlLoadHw} {h : PartitionHeader} {inst : XFsblPs} {c : PlCopy}
  {s s' : PlState} {e : Halt} {code : UInt32}

theorem sameEvents_ensure {p : Prop} [Decidable p] : Frame SameEvents (ensure p code) :=
  frame_ite (fun _ => frame_pure _) fun _ => frame_throw _

theorem sameEvents_ofExcept {α : Type} (x : Except UInt32 α) : Frame SameEvents (ofExcept x) := by
  cases x with
  | ok a => exact frame_pure _
  | error code => exact frame_throw _

theorem sameEvents_partitionCopy : Frame SameEvents (partitionCopy b hw h inst) := by
  refine frame_ite (fun _ => frame_pure _) fun _ => frame_ite (fun _ => frame_pure _) fun _ => ?_
  refine frame_ite (fun _ => frame_pure _) fun _ => frame_bind (sameEvents_ofExcept _) fun _ => ?_
  refine frame_bind sameEvents_ensure fun _ => frame_ite (fun _ => frame_throw _) fun _ => ?_
  exact frame_bind sameEvents_ensure fun _ => frame_pure _

theorem sameEvents_checkPartition (loadAddress : Nat) :
    Frame SameEvents (checkPartition b hw h inst c loadAddress) := by
  refine frame_bind sameEvents_ensure fun _ => frame_bind sameEvents_ensure fun _ => ?_
  refine frame_bind sameEvents_ensure fun _ => frame_ite (fun _ => frame_pure _) fun _ => ?_
  refine frame_bind sameEvents_ensure fun _ => frame_bind sameEvents_ensure fun _ => ?_
  exact sameEvents_ensure

/-- The event is the last step of a measurement. -/
theorem tpmMeasurePl_error {hw : PlHw} {psDdr : Bool} {imageOffset : UInt32} {source : Nat}
    (hrun : tpmMeasurePl hw psDdr imageOffset h source s = .error e s') : s'.events = s.events := by
  have unlogged {m : Pl (UInt32 × Digest)} (hm : Frame SameEvents m)
      (hrun : (m >>= logBitstream) s = .error e s') : s'.events = s.events := by
    rcases bind_error.1 hrun with hrun | ⟨r, t, -, hlog⟩
    · exact hm.error hrun
    · unfold logBitstream at hlog
      split at hlog
      · simp at hlog
      · rcases bind_error.1 hlog with hlog | ⟨_, u, -, hlog⟩
        · simp at hlog
        · simp at hlog
  unfold tpmMeasurePl at hrun
  split at hrun
  · split at hrun
    · exact unlogged (sameEvents_plMeasureUnencrypted _ _ _) hrun
    · exact unlogged (sameEvents_plMeasureChunked _ _ _ _) hrun
  · exact unlogged (sameEvents_plMeasureEncrypted _ _ _) hrun

/-- A download that fails has no event: only of an encrypted bitstream the status is looked at. -/
theorem downloadBitstream_error {loadAddress : Nat}
    (hd : downloadBitstream b hw h inst c loadAddress s = .error e s') : s'.events = s.events := by
  unfold downloadBitstream at hd
  split at hd
  · rcases bind_error.1 hd with hd | ⟨status, t, hmeasure, hd⟩
    · split at hd
      · exact (sameEvents_xsecureAesDecrypt _ _).error hd
      · exact tpmMeasurePl_error hd
    · unfold ensure at hd
      split at hd
      · simp at hd
      · rename_i hne
        obtain ⟨-, rfl⟩ := throw_error.1 hd
        split at hmeasure
        · exact (sameEvents_xsecureAesDecrypt _ _).ok hmeasure
        · rcases tpmMeasurePl_events hmeasure with ⟨hs, -⟩ | ⟨-, hnone⟩
          · exact absurd hs hne
          · exact hnone
  · rcases bind_error.1 hd with hd | ⟨status, t, -, hd⟩
    · exact tpmMeasurePl_error hd
    · simp at hd

theorem downloadBitstream_ok {loadAddress : Nat} {u : Unit}
    (hd : downloadBitstream b hw h inst c loadAddress s = .ok u s') :
    s'.events = s.events ∨ ∃ d, s'.events = s.events ++ [bitstreamEvent d] := by
  have measured {status : UInt32} {t : PlState} {source : Nat}
      (hm : tpmMeasurePl (hw.behind c) b.psDdr inst.imageOffsetAddress h source s = .ok status t) :
      t.events = s.events ∨ ∃ d, t.events = s.events ++ [bitstreamEvent d] := by
    rcases tpmMeasurePl_events hm with ⟨-, hd⟩ | ⟨-, hnone⟩
    · exact .inr hd
    · exact .inl hnone
  unfold downloadBitstream at hd
  split at hd
  · obtain ⟨status, t, hmeasure, hd⟩ := bind_ok.1 hd
    obtain ⟨-, rfl⟩ := ensure_ok.1 hd
    split at hmeasure
    · exact .inl ((sameEvents_xsecureAesDecrypt _ _).ok hmeasure)
    · exact measured hmeasure
  · obtain ⟨status, t, hmeasure, hd⟩ := bind_ok.1 hd
    obtain ⟨-, rfl⟩ := pure_ok.1 hd
    exact measured hmeasure

/-- The failing step is behind the download. -/
def AfterDownload (hw : PlLoadHw) (code : UInt32) : Prop :=
  code = hw.plWaitForDone ∧ code ≠ xfsblSuccess ∨
    code = xfsblErrorHookAfterBitstreamDownload ∧ hw.hookAfterBSDownload ≠ xfsblSuccess

theorem afterBitstream_error (ha : afterBitstream hw s = .error (.status code) s') :
    s' = s ∧ AfterDownload hw code := by
  unfold afterBitstream at ha
  rcases bind_error.1 ha with ha | ⟨_, t, h1, ha⟩
  · unfold ensure at ha
    split at ha
    · simp at ha
    · rename_i hne
      obtain ⟨hcode, rfl⟩ := throw_error.1 ha
      obtain rfl := Halt.status.inj hcode
      exact ⟨rfl, .inl ⟨rfl, hne⟩⟩
  · obtain ⟨-, rfl⟩ := ensure_ok.1 h1
    unfold ensure at ha
    split at ha
    · simp at ha
    · rename_i hne
      obtain ⟨hcode, rfl⟩ := throw_error.1 ha
      obtain rfl := Halt.status.inj hcode
      exact ⟨rfl, .inr ⟨rfl, hne⟩⟩

/-- A failed load logged nothing, or one event in front of what failed behind the download. -/
theorem partitionLoad_failed (hf : partitionLoad b hw h inst s = .error (.status code) s') :
    s'.events = s.events ∨
      AfterDownload hw code ∧ ∃ d, s'.events = s.events ++ [bitstreamEvent d] := by
  rcases bind_error.1 hf with hf | ⟨c, t, hcopy, hf⟩
  · exact .inl (sameEvents_partitionCopy.error hf)
  obtain ⟨rfl, -⟩ := partitionCopy_ok hcopy
  rcases bind_error.1 hf with hf | ⟨_, t, -, hf⟩
  · unfold partitionValidation at hf
    split at hf
    · simp at hf
    rcases bind_error.1 hf with hf | ⟨loadAddress, t, hx, hf⟩
    · exact .inl ((sameEvents_ofExcept _).error hf)
    obtain ⟨-, rfl⟩ := ofExcept_ok.1 hx
    rcases bind_error.1 hf with hf | ⟨_, t, hcheck, hf⟩
    · exact .inl ((sameEvents_checkPartition _).error hf)
    obtain rfl := checkPartition_ok hcheck
    rcases bind_error.1 hf with hf | ⟨_, t, hdown, hf⟩
    · exact .inl (downloadBitstream_error hf)
    obtain ⟨rfl, hafter⟩ := afterBitstream_error hf
    rcases downloadBitstream_ok hdown with hnone | hone
    · exact .inl hnone
    · exact .inr ⟨hafter, hone⟩
  · simp at hf

end Failed

/-! ## A board with PS DDR

`xfsbl_hw.h` defines `XFSBL_PL_LOAD_FROM_OCM` there too, unless it is excluded. -/

def ocmBuild : PlBuild := ⟨true, true⟩

/-- Every step succeeds, and every flash byte is 1. -/
def loadHw : PlLoadHw :=
  { readyHw with
    flash := fun _ => 1
    configureMemory := (xfsblSuccess, fun _ => 0)
    pmuSleeps := true
    deviceCopy := xfsblSuccess
    aesInitialize := xfsblSuccess
    hookBeforeBSDownload := xfsblSuccess
    pcapInit := xfsblSuccess
    checksumChunk := fun _ => xfsblSuccess
    checksumCopy := xfsblSuccess
    aesKeyLoad := fun _ => xfsblSuccess
    aesChunkWait := fun _ => xfsblSuccess
    plWaitForDone := xfsblSuccess
    hookAfterBSDownload := xfsblSuccess }

def a53Inst : XFsblPs := { XFsblPs.initial with processorID := xihPhAttrbDestCpuA53_0 }

/-- A bitstream of one word. -/
def wordBitstream (loadAddress : UInt64) : PartitionHeader :=
  { PartitionHeader.zero with
    unEncryptedDataWordLength := 1
    encryptedDataWordLength := 1
    totalDataWordLength := 1
    destinationLoadAddress := loadAddress
    partitionAttributes := xihPhAttrbDestDevicePl }

theorem accepts_wordBitstream {loadAddress : UInt64}
    (hv : validatePartitionHeader (wordBitstream loadAddress) xihPhAttrbDestCpuA53_0 0 0 = xfsblSuccess) :
    ocmBuild.Accepts (wordBitstream loadAddress) a53Inst 0 where
  toPl := show (xihPhAttrbDestDevicePl &&& _ == _) = true by decide
  unsigned := show (xihPhAttrbDestDevicePl &&& _ == _) = false by decide
  valid := hv
  address := nofun

end MeasuredBoot.Stream
