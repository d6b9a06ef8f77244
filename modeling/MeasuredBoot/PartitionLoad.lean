import MeasuredBoot.Measure

/-!
# Loading a partition (`xfsbl_partition_load.c`)

`partitionLoad n`: the checks of partition header `n`, the copy, the validation
with the measurement at its end, and the wake-up of the PMU. The parts of
`XFsbl_PartitionValidation` are functions of their own, in its order. The build
is the one of `xfsbl_config.h` for the A53 (64 bit): PS DDR, no bitstream load
from OCM, no TPM, and authentication whenever the header carries the signature
attribute (`FSBL_UNPROVISIONED_AUTH_SIGN_EXCLUDE`).
-/

namespace MeasuredBoot

def xfsblAuthCertMinSize : UInt32 := 3776
def xfsblR50TcmEccInitStatus : UInt32 := 0x1
def xfsblR51TcmEccInitStatus : UInt32 := 0x2
def xihBhImageAttrbSha2Mask : UInt32 := 0x3000

section Hw

variable (hw : Hw)

/-! ## Header validation -/

/-- `false`: the FSBL is not the owner of the partition. -/
def partitionHeaderValidation (n : Nat) : Fsbl Bool := do
  let partitionHeader ← header n
  let ok := validateChecksum partitionHeader.words = xfsblSuccess
  act (.headerChecked n ok)
  ensure ok xfsblErrorPhChecksumFailed
  if partitionHeader.getPartitionOwner ≠ xihPhAttrbPartOwnerFsbl then pure false
  else do
    let w ← get
    let efuseSecCtrl ← readReg hw .efuseSecCtrl
    let status := validatePartitionHeader partitionHeader w.inst.processorID w.inst.resetReason
      efuseSecCtrl
    if status = xfsblSuccessNotPartitionOwner then pure false
    else do
      ensure (status = xfsblSuccess) status
      pure true

/-! ## The handoff table -/

/-- `XFsbl_CheckHandoffCpu`: no entry of this CPU yet. -/
def checkHandoffCpu (handoffValues : List HandoffValue) (destinationCpu : UInt32) : Bool :=
  handoffValues.all fun v => v.cpuSettings &&& xihPhAttrbDestCpuMask ≠ destinationCpu

/-- The entry of a partition: only the first of its CPU gets one. -/
def updateHandoff (n : Nat) (h : PartitionHeader) (destinationCpu : UInt32) : Fsbl Unit := do
  let w ← get
  if checkHandoffCpu w.inst.handoffValues destinationCpu then
    if w.inst.handoffValues.length < maxHandoffValues then
      act (.handoffEntry n ⟨destinationCpu ||| h.getA53ExecState, h.destinationExecutionAddress⟩)
    else throw .handoffOutOfBounds
  else pure ()

/-! ## Memory -/

/-- The R5 TCM address as every CPU sees it; a partition that does not fit is an error. -/
def getLoadAddress (destinationCpu : UInt32) (address : UInt64) (length : UInt32) :
    Except UInt32 UInt64 :=
  if destinationCpu = xihPhAttrbDestCpuR5_0 ∧ inR5TcmBank address then
    if length.toUInt64 > xfsblR5TcmBankLength then .error xfsblErrorLoadAddress
    else .ok (xfsblR50HighAtcmStartAddress + address)
  else if destinationCpu = xihPhAttrbDestCpuR5_1 ∧ inR5TcmBank address then
    if length.toUInt64 > xfsblR5TcmBankLength then .error xfsblErrorLoadAddress
    else .ok (xfsblR51HighAtcmStartAddress + address)
  else if destinationCpu = xihPhAttrbDestCpuR5L ∧ inR5LTcm address then
    if length.toUInt64 > xfsblR5TcmBankLength * 4 then .error xfsblErrorLoadAddress
    else .ok (xfsblR50HighAtcmStartAddress + address)
  else .ok address

def powerUpMemory : TcmMemory → Fsbl Unit
  | .r5_0 => checkedAs hw (.powerUpTcm .r5_0) xfsblErrorR5_0TcmPowerUp
  | .r5_1 => checkedAs hw (.powerUpTcm .r5_1) xfsblErrorR5_1TcmPowerUp
  | .r5L => checkedAs hw (.powerUpTcm .r5L) xfsblErrorR5LTcmPowerUp

def zdmaTransferMaxLen : Nat := 0x3FFFFFF8

/-- The transfers of `XFsbl_EccInit` for the bytes left, at most `fuel` of them. -/
def eccInitLoop : Nat → Nat → Nat → Fsbl Unit
  | 0, _, _ => pure ()
  | fuel + 1, startAddr, numBytes =>
    if numBytes = 0 then pure ()
    else do
      let length := min numBytes zdmaTransferMaxLen
      wait hw .waitDmaIdle
      act (.eccInit startAddr length)
      wait hw .waitDmaDone
      let status ← call hw .dmaStatus
      ensure (status = xfsblSuccess) xfsblErrorTcmEccInit
      eccInitLoop fuel (startAddr + length) (numBytes - length)

/-- `XFsbl_EccInit`; its only caller in this build turns an error into
`XFSBL_ERROR_TCM_ECC_INIT`. -/
def eccInit (destAddr lengthBytes : Nat) : Fsbl Unit :=
  eccInitLoop hw (lengthBytes / zdmaTransferMaxLen + 1) destAddr lengthBytes

/-- The ranges `XFsbl_TcmEccInit` initialises for a CPU and the status bits it sets. Where an R5
runs the FSBL, its own vectors are left alone. -/
def tcmEccRanges (processorID cpuId : UInt32) : List (Nat × Nat) × UInt32 :=
  let high := xfsblR50HighAtcmStartAddress.toNat
  let bank := xfsblR5TcmBankLength.toNat
  let both := xfsblR50TcmEccInitStatus ||| xfsblR51TcmEccInitStatus
  let vectors := if processorID ≠ xihPhAttrbDestCpuA53_0 then 32 else 0
  if cpuId = xihPhAttrbDestCpuA53_0 then ([(high, bank * 4)], both)
  else if cpuId = xihPhAttrbDestCpuR5L then ([(high + vectors, bank * 4 - vectors)], both)
  else if cpuId = xihPhAttrbDestCpuR5_0 then
    ([(high + vectors, bank - vectors), (xfsblR50HighBtcmStartAddress.toNat, bank)],
      xfsblR50TcmEccInitStatus)
  else if cpuId = xihPhAttrbDestCpuR5_1 then
    ([(xfsblR51HighAtcmStartAddress.toNat, bank), (xfsblR51HighBtcmStartAddress.toNat, bank)],
      xfsblR51TcmEccInitStatus)
  else ([(0, 0), (0, 0)], 0)

def eccInitRanges : List (Nat × Nat) → Fsbl Unit
  | [] => pure ()
  | (destAddr, lengthBytes) :: ranges => do
    eccInit hw destAddr lengthBytes
    eccInitRanges ranges

def tcmEccInit (cpuId : UInt32) : Fsbl Unit := do
  let w ← get
  let r := tcmEccRanges w.inst.processorID cpuId
  eccInitRanges hw r.1
  modifyInst fun i => { i with tcmEccInitStatus := r.2 }

/-- An address in one of a CPU's TCM banks as every CPU sees them. -/
def inHighBank (atcm btcm address : UInt64) : Prop :=
  (atcm ≤ address ∧ address < atcm + xfsblR5TcmBankLength) ∨
    (btcm ≤ address ∧ address < btcm + xfsblR5TcmBankLength)

instance (atcm btcm address : UInt64) : Decidable (inHighBank atcm btcm address) :=
  inferInstanceAs (Decidable (_ ∨ _))

/-- Powers up a TCM unless the FSBL runs on its CPU, and initialises its ECC once. -/
def configureTcm (memory : TcmMemory) (runningCpu destinationCpu eccMask : UInt32) : Fsbl Unit := do
  when (runningCpu ≠ destinationCpu) (powerUpMemory hw memory)
  let w ← get
  when (w.inst.tcmEccInitStatus &&& eccMask ≠ eccMask) (tcmEccInit hw destinationCpu)

def configureMemory (runningCpu destinationCpu : UInt32) (address : UInt64) : Fsbl Unit :=
  if destinationCpu = xihPhAttrbDestCpuR5_0 ∧
      inHighBank xfsblR50HighAtcmStartAddress xfsblR50HighBtcmStartAddress address then
    configureTcm hw .r5_0 runningCpu destinationCpu xfsblR50TcmEccInitStatus
  else if destinationCpu = xihPhAttrbDestCpuR5_1 ∧
      inHighBank xfsblR51HighAtcmStartAddress xfsblR51HighBtcmStartAddress address then
    configureTcm hw .r5_1 runningCpu destinationCpu xfsblR51TcmEccInitStatus
  else if destinationCpu = xihPhAttrbDestCpuR5L ∧ xfsblR50HighAtcmStartAddress ≤ address ∧
      address < xfsblR50HighAtcmStartAddress + xfsblR5TcmBankLength * 4 then
    configureTcm hw .r5L runningCpu destinationCpu
      (xfsblR50TcmEccInitStatus ||| xfsblR51TcmEccInitStatus)
  else pure ()

/-! ## Copy -/

/-- The flash address of a partition's data. -/
def srcAddress (inst : XFsblPs) (h : PartitionHeader) : UInt32 :=
  inst.imageOffsetAddress + h.dataWordOffset * xihPartitionWordLength

/-- The bytes to copy: without the certificate, which goes to `AuthBuffer`, unless for the PL. -/
def copyLength (h : PartitionHeader) : UInt32 :=
  if h.authenticated && !h.toPl then
    h.totalDataWordLength * xihPartitionWordLength - xfsblAuthCertMinSize
  else h.totalDataWordLength * xihPartitionWordLength

/-- A bitstream without a load address goes to the temporary DDR address. -/
def plLoadAddress (h : PartitionHeader) (loadAddress : UInt64) : UInt64 :=
  if h.toPl ∧ loadAddress = xfsblDummyPlAddr then xfsblDdrTempAddress else loadAddress

/-- The rest of `XFsbl_PartitionCopy` for a partition that is copied. -/
def copyToMemory (n : Nat) (h : PartitionHeader) (inst : XFsblPs) (destinationCpu : UInt32) :
    Fsbl Unit := do
  let srcAddress := srcAddress inst h
  let length := copyLength h
  when (h.authenticated && !h.toPl) do
    let _ ← deviceRead hw (srcAddress + length) xfsblAuthCertMinSize.toNat
    pure ()
  let loadAddress ← ofExcept (getLoadAddress destinationCpu (plLoadAddress h h.destinationLoadAddress)
    length)
  configureMemory hw inst.processorID destinationCpu loadAddress
  when (destinationCpu = xihPhAttrbDestCpuPmu) (wait hw .waitPmuSleep)
  deviceLoad hw n srcAddress loadAddress.toNat length.toNat

def partitionCopy (n : Nat) : Fsbl Unit := do
  let partitionHeader ← header n
  let w ← get
  let destinationCpu := partitionHeader.effectiveCpu w.inst.processorID
  -- execute in place: nothing to copy
  if partitionHeader.unEncryptedDataWordLength = 0 then
    updateHandoff n partitionHeader destinationCpu
  -- a bitstream stays in the PL over a PS-only reset
  else if partitionHeader.toPl ∧ w.inst.resetReason = xfsblPsOnlyReset then pure ()
  else copyToMemory hw n partitionHeader w.inst destinationCpu

/-! ## Validation -/

/-- The SHA3 checksum of the partition against the one in flash. -/
def checkPartitionChecksum (h : PartitionHeader) (inst : XFsblPs) (loadAddress : UInt64) :
    Fsbl Unit := do
  if h.getChecksumType = xihPhAttrbNochecksum then pure ()
  else do
    ensure (h.getChecksumType = xihPhAttrbHashSha3) xfsblErrorPartitionChecksumFailed
    let input ← loadMem loadAddress.toNat (h.totalDataWordLength * 4).toNat
    let partitionHash ← shaDigest hw input
    let hash ← deviceRead hw (inst.imageOffsetAddress + h.checksumWordOffset * 4) 48
    ensure (hash.load 0 48 = partitionHash.toList) xfsblFailure

/-- Before the download of a bitstream: the hook and the PCAP. -/
def beforeBitstream (h : PartitionHeader) : Fsbl Unit :=
  when h.toPl do
    checkedAs hw .hookBeforeBSDownload xfsblErrorHookBeforeBitstreamDownload
    checked hw .pcapInit

/-- A signed bitstream is authenticated, decrypted and downloaded by `XFsbl_SecPlPartition`, any
other signed partition checked by `XFsbl_Authentication`. -/
def authenticatePartition (n : Nat) (h : PartitionHeader) (inst : XFsblPs) : Fsbl Unit :=
  if h.authenticated = false then pure ()
  else if h.toPl = false then checked hw (.authentication n)
  else do
    ensure (h.getBlockSize ≠ 0) xfsblErrorBlockSizeSecBs
    ensure (inst.bootHdrAttributes &&& xihBhImageAttrbSha2Mask ≠ xihBhImageAttrbSha2Mask)
      xfsblErrorSha2NotSupported
    checked hw (.secPlPartition n)

/-- `XSecure_AesDecrypt` in place. -/
def decryptPartition (n : Nat) (h : PartitionHeader) (loadAddress : UInt64) : Fsbl Unit :=
  when (h.encrypted && !h.toPl) do
    let r ← ask hw.aesDecrypt
    act (.placed n loadAddress.toNat (h.unEncryptedDataWordLength * 4).toNat r.2)
    ensure (r.1 = xfsblSuccess) xfsblErrorDecryptionFail

/-- An unsigned bitstream goes to the PL through the measuring function. Only the encrypted branch
looks at its status. -/
def downloadBitstream (n : Nat) (h : PartitionHeader) (loadAddress : UInt64) : Fsbl Unit :=
  when (h.toPl && !h.authenticated) do
    let status ← tpmMeasurePl hw n loadAddress
    ensure (h.encrypted = false ∨ status = xfsblSuccess) xfsblErrorBitstreamDecryptionFail

/-- After the download: the wait for the PL and the hook. -/
def afterBitstream (h : PartitionHeader) : Fsbl Unit :=
  when h.toPl do
    checked hw .plWaitForDone
    checkedAs hw .hookAfterBSDownload xfsblErrorHookAfterBitstreamDownload

/-- The checks of the partition where it was placed. -/
def checkPartition (n : Nat) (h : PartitionHeader) (inst : XFsblPs) (loadAddress : UInt64) :
    Fsbl Unit := do
  when h.encrypted (checkedAs hw .aesInitialize xfsblErrorAesInitialize)
  beforeBitstream hw h
  checkPartitionChecksum hw h inst loadAddress
  authenticatePartition hw n h inst

/-- Handoff entry and measurement at the end of the validation. -/
def finishPartition (n : Nat) (h : PartitionHeader) (destinationCpu : UInt32)
    (loadAddress : UInt64) : Fsbl Unit :=
  when (h.toPl = false) do
    when (destinationCpu ≠ xihPhAttrbDestCpuPmu) (updateHandoff n h destinationCpu)
    tpmMeasurePartition hw n loadAddress

/-- `XFsbl_PartitionValidation` from the load address on. -/
def validatePlaced (n : Nat) (h : PartitionHeader) (inst : XFsblPs) (destinationCpu : UInt32) :
    Fsbl Unit := do
  let loadAddress ← ofExcept (getLoadAddress destinationCpu h.destinationLoadAddress
    (h.totalDataWordLength * 4))
  let loadAddress := plLoadAddress h loadAddress
  checkPartition hw n h inst loadAddress
  decryptPartition hw n h loadAddress
  downloadBitstream hw n h loadAddress
  afterBitstream hw h
  finishPartition hw n h destinationCpu loadAddress

def partitionValidation (n : Nat) : Fsbl Unit := do
  let partitionHeader ← header n
  let w ← get
  if partitionHeader.toPl ∧ w.inst.resetReason = xfsblPsOnlyReset then pure ()
  else
    let destinationCpu := partitionHeader.effectiveCpu w.inst.processorID
    validatePlaced hw n partitionHeader w.inst destinationCpu

/-! ## PMU firmware -/

/-- Whether partition `n` is the last of the PMU firmware. -/
def pmuFwLoadDone (n : Nat) : Fsbl Bool := do
  let partitionHeader ← header n
  if partitionHeader.getDestinationCpu = xihPhAttrbDestCpuPmu then do
    let w ← get
    if n + 1 ≤ (w.inst.imageHeader.imageHeaderTable.noOfPartitions - 1).toNat then do
      let next ← header (n + 1)
      pure (next.getDestinationCpu ≠ xihPhAttrbDestCpuPmu)
    else pure true
  else pure false

def checkPmuFw (n : Nat) : Fsbl Unit := do
  let done ← pmuFwLoadDone n
  when done do
    act .pmuWoken
    wait hw .waitPmuFwPresent

/-! ## `XFsbl_PartitionLoad` -/

def partitionLoad (n : Nat) : Fsbl Unit := do
  let owned ← partitionHeaderValidation hw n
  when owned do
    partitionCopy hw n
    partitionValidation hw n
    checkPmuFw hw n

end Hw

end MeasuredBoot
