import MeasuredBoot.Platform

/-!
# Measurements (`fsbl_measured_boot.c`, `fsbl_measured_pl.c`)

The four measuring functions. Each hashes a range and records one event;
`tpmMeasurePartition` takes name and PCR from the ladder on the static counter
`partition`, which ends after the fourth event, and prints the log at the fourth.
`tpmMeasurePl` also streams the bitstream, and returns a status.
-/

namespace MeasuredBoot

/-! ## Event names -/

def romName : CStr := ⟨ascii ['R', 'O', 'M'], by decide⟩

def fsblName : CStr := ⟨ascii ['F', 'S', 'B', 'L'], by decide⟩

def bl31Name : CStr := ⟨ascii ['B', 'L', '3', '1'], by decide⟩

def deviceTreeBlobName : CStr :=
  ⟨ascii ['D', 'E', 'V', 'I', 'C', 'E', ' ', 'T', 'R', 'E', 'E', ' ', 'B', 'L', 'O', 'B'], by decide⟩

def uBootName : CStr := ⟨ascii ['U', '-', 'B', 'O', 'O', 'T'], by decide⟩

def opTeeName : CStr := ⟨ascii ['O', 'P', '-', 'T', 'E', 'E'], by decide⟩

def bitstreamName : CStr := ⟨ascii ['B', 'I', 'T', 'S', 'T', 'R', 'E', 'A', 'M'], by decide⟩

section Hw

variable (hw : Hw)

/-! ## ROM and FSBL -/

/-- The ROM digest, its words in reverse order. -/
def romDigestData : Digest :=
  Vector.ofFn fun i => (leBytes 4 (hw.romDigest (11 - i / 4)).toNat).getD (i % 4) 0

def romEvent : Event := ⟨0, evPostCode, romDigestData hw, some romName⟩

def tpmMeasureRom : Fsbl Unit := do
  act .logHeader
  act (.recorded .rom (romEvent hw))

/-- The number of bytes `Tpm_Measure_Fsbl` hashes. -/
def fsblHashedBytes : Nat := 250000

def fsblEvent (digest : Digest) : Event := ⟨1, evPostCode, digest, some fsblName⟩

/-- `SizeInBytes` is computed from the header and only printed. -/
def tpmMeasureFsbl : Fsbl Unit := do
  let partitionHeader ← header 0
  let loadAddress := partitionHeader.destinationLoadAddress.toNat
  let input ← loadMem loadAddress fsblHashedBytes
  let digest ← shaDigest hw input
  act (.hashed .fsbl loadAddress input)
  act (.recorded .fsbl (fsblEvent digest))

/-! ## Partitions -/

/-- The flush of the log: `size` is what the print left of it. -/
def flushPrinted (run : PrintRun) : Fsbl Unit :=
  match run.stop with
  | .done => act (.flushed eventLogStart run.left)
  | .unset => throw .printUnset
  | .running => throw .hang

/-- `XFsbl_Printf` of the whole log, then the flush. -/
def printEventLog : Fsbl Unit := do
  let w ← get
  flushPrinted (eventLogPrint w.mem (2 ^ 64) eventLogStart (w.logPtr2 - eventLogStart))

/-- The event of a partition digest and `partition += 1`. -/
def recordPartition (partitionNum : Nat) (digest : Digest) (pcr : UInt32) (name : CStr) :
    Fsbl Unit := do
  act (.recorded (.partition partitionNum) ⟨pcr, evPostCode, digest, some name⟩)
  act .counted

/-- The ladder on the counter; from 5 on nothing is recorded. -/
def recordLadder (partitionNum partition : Nat) (digest : Digest) : Fsbl Unit :=
  if partition = 1 then recordPartition partitionNum digest 3 bl31Name
  else if partition = 2 then recordPartition partitionNum digest 5 deviceTreeBlobName
  else if partition = 3 then recordPartition partitionNum digest 4 uBootName
  else if partition = 4 then do
    recordPartition partitionNum digest 3 opTeeName
    printEventLog
  else pure ()

def tpmMeasurePartition (partitionNum : Nat) (loadAddress : UInt64) : Fsbl Unit := do
  let partitionHeader ← header partitionNum
  let sizeInBytes := partitionHeader.unEncryptedDataWordLength <<< 2
  let input ← loadMem loadAddress.toNat sizeInBytes.toNat
  let digest ← shaDigest hw input
  act (.hashed (.partition partitionNum) loadAddress.toNat input)
  let w ← get
  recordLadder partitionNum w.partition digest

/-! ## Bitstreams -/

/-- `XCSUDMA_SIZE_MAX`, in words. -/
def xcsudmaSizeMax : UInt32 := 0x07FFFFFF

/-- `XSECURE_CSU_AES_IMAGE_LEN_MISMATCH`. -/
def aesImageLenMismatch : UInt32 := 0x2

/-- `Pl_Measure_WriteToPcap_with_SHA3`: the DMA driver asserts alignment and size. -/
def plMeasureWriteToPcapWithSha3 (wrSize : UInt32) (wrAddr : Nat) : Fsbl UInt32 := do
  when (¬ (wrAddr % 4 = 0 ∧ wrSize ≤ xcsudmaSizeMax)) (throw .hang)
  wait hw .waitCsuDmaDone
  call hw .pcapWaitForDone

/-- Status and digest; `Sha3Len` counts the bytes streamed. -/
def plMeasureUnencrypted (partitionNum : Nat) (sizeInWords : UInt32) (source : Nat) :
    Fsbl (UInt32 × Digest) := do
  let input ← loadMem source (sizeInWords.toNat * 4)
  let status ← plMeasureWriteToPcapWithSha3 hw sizeInWords source
  let digest ← shaDigest hw input
  act (.hashed (.bitstream partitionNum) source input)
  pure (status, digest)

/-- The block loop of `Pl_Measure_Encrypted` from `CurrentImgLen` on: its status, or `none` when the
engine gives no further block. -/
def aesBlockLoop (size : UInt32) : UInt32 → List (UInt32 × UInt32) → Option UInt32
  | _, [] => none
  | currentImgLen, (status, next) :: blocks =>
    if status ≠ xfsblSuccess then some status
    else
      let nextBlkLen := next * 4
      let currentImgLen := currentImgLen + nextBlkLen
      if nextBlkLen = 0 then
        if currentImgLen ≠ size then some aesImageLenMismatch else some xfsblSuccess
      else if currentImgLen > size then some aesImageLenMismatch
      else aesBlockLoop size currentImgLen blocks

/-- Status and digest; the driver never counts the bytes of the stream. -/
def plMeasureEncrypted (size : UInt32) : Fsbl (UInt32 × Digest) := do
  let blocks ← ask hw.aesBlocks
  match aesBlockLoop size 0 blocks with
  | none => throw .hang
  | some status => do
    let digest ← ask hw.streamDigest
    let finish ← ask hw.sha
    let keyClearStatus ← call hw .aesKeyZero
    match finish with
    | .stuck => throw .hang
    | .done => pure (if keyClearStatus ≠ xfsblSuccess then keyClearStatus else status, digest)
    | .timeout => pure (if keyClearStatus ≠ xfsblSuccess then keyClearStatus else status, zeroDigest)

def bitstreamEvent (digest : Digest) : Event := ⟨2, evPostCode, digest, some bitstreamName⟩

/-- The bitstream event, unless the transfer failed. -/
def recordBitstream (partitionNum : Nat) (r : UInt32 × Digest) : Fsbl UInt32 :=
  if r.1 ≠ xfsblSuccess then pure r.1
  else do
    act (.recorded (.bitstream partitionNum) (bitstreamEvent r.2))
    pure r.1

def tpmMeasurePl (partitionNum : Nat) (source : UInt64) : Fsbl UInt32 := do
  let partitionHeader ← header partitionNum
  let sizeInWords := partitionHeader.unEncryptedDataWordLength
  let sizeInBytes := partitionHeader.unEncryptedDataWordLength <<< 2
  if partitionHeader.encrypted = false then do
    let r ← plMeasureUnencrypted hw partitionNum sizeInWords source.toNat
    recordBitstream partitionNum r
  else do
    let r ← plMeasureEncrypted hw sizeInBytes
    recordBitstream partitionNum r

end Hw

end MeasuredBoot
