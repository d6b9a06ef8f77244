import MeasuredBoot.PartitionLoad

/-!
# Initialization (`xfsbl_initialization.c`, `XFsbl_ReadImageHeader`)

Stage 1 (`fsblInitialize`: reset reason, system, processor, TCM, board, ROM event) and
stage 2 (`bootDeviceInitAndValidate`: primary boot device, headers, FSBL event, and
the same again for a secondary boot device). `readImageHeader` reads the table
and the partition headers from flash, or from the authenticated copy in
`ImageHdr`; a table that names a secondary device ends it before the first
partition header.
-/

namespace MeasuredBoot

/-! ## Boot modes -/

def xfsblJtagBootMode : UInt32 := 0x0
def xfsblQspi24BootMode : UInt32 := 0x1
def xfsblQspi32BootMode : UInt32 := 0x2
def xfsblSd0BootMode : UInt32 := 0x3
def xfsblNandBootMode : UInt32 := 0x4
def xfsblSd1BootMode : UInt32 := 0x5
def xfsblEmmcBootMode : UInt32 := 0x6
def xfsblUsbBootMode : UInt32 := 0x7
def xfsblSd1LsBootMode : UInt32 := 0xE
def xfsblSdSecBootMask : UInt32 := 0x10

def crlApbBootModeUserBootModeMask : UInt32 := 0xF

/-- The driver of a boot mode and the controller it needs. USB is not in this build. -/
def bootModeDevice (bootMode : UInt32) : Option (Controller × Device) :=
  if bootMode = xfsblQspi24BootMode then some (.qspi, .qspi24)
  else if bootMode = xfsblQspi32BootMode then some (.qspi, .qspi32)
  else if bootMode = xfsblNandBootMode then some (.nand, .nand)
  else if bootMode = xfsblSd0BootMode ∨ bootMode = xfsblEmmcBootMode then some (.sd0, .sd)
  else if bootMode = xfsblSd1BootMode ∨ bootMode = xfsblSd1LsBootMode then some (.sd1, .sd)
  else none

/-- The boot mode a secondary boot device stands for. -/
def secBootMode (secondaryBootDevice : UInt32) : Option (Controller × Device × UInt32) :=
  if secondaryBootDevice = xihIhtPpdQspi24 then some (.qspi, .qspi24, xfsblQspi24BootMode)
  else if secondaryBootDevice = xihIhtPpdQspi32 then some (.qspi, .qspi32, xfsblQspi32BootMode)
  else if secondaryBootDevice = xihIhtPpdNand then some (.nand, .nand, xfsblNandBootMode)
  else if secondaryBootDevice = xihIhtPpdSd0 then
    some (.sd0, .sd, xfsblSd0BootMode ||| xfsblSdSecBootMask)
  else if secondaryBootDevice = xihIhtPpdMmc then
    some (.sd0, .sd, xfsblEmmcBootMode ||| xfsblSdSecBootMask)
  else if secondaryBootDevice = xihIhtPpdSd1 then
    some (.sd1, .sd, xfsblSd1BootMode ||| xfsblSdSecBootMask)
  else if secondaryBootDevice = xihIhtPpdSdLs then
    some (.sd1, .sd, xfsblSd1LsBootMode ||| xfsblSdSecBootMask)
  else none

/-! ## ATF handoff parameters -/

def xfsblMaxEntriesForAtf : Nat := 8

/-- The partition flags for ATF: execution state, endianness, TrustZone, exception level, CPU. -/
def atfPartitionFlags (h : PartitionHeader) : UInt32 :=
  let flags := ((h.partitionAttributes &&& xihPhAttrbA53ExecStMask) >>> 3) |||
    ((h.partitionAttributes &&& xihPhAttrbEndianMask) >>> 17) |||
    ((h.partitionAttributes &&& xihPhAttrbTrSecureMask) <<< 2) |||
    ((h.partitionAttributes &&& xihPhAttrbTargetElMask) <<< 2)
  if h.getDestinationCpu = xihPhAttrbDestCpuA53_0 then flags ||| 0x00
  else if h.getDestinationCpu = xihPhAttrbDestCpuA53_1 then flags ||| 0x20
  else if h.getDestinationCpu = xihPhAttrbDestCpuA53_2 then flags ||| 0x40
  else flags ||| 0x60

def setATFHandoffParameters (p : ATFHandoffParams) (h : PartitionHeader) (entryCount : Nat) :
    ATFHandoffParams where
  magicValue := if entryCount = 0 then ascii ['X', 'L', 'N', 'X'] else p.magicValue
  numEntries := UInt32.ofNat entryCount + 1
  entry := p.entry.setIfInBounds entryCount
    (h.destinationExecutionAddress, (atfPartitionFlags h).toUInt64)

/-- Whether partition header `index` is one ATF is told about. -/
def isAtfEntry (h : PartitionHeader) (runningCpu : UInt32) (index entryCount : Nat) : Bool :=
  index > 1 && entryCount < xfsblMaxEntriesForAtf && h.destinationExecutionAddress != 0 &&
    h.effectiveCpu runningCpu ≥ xihPhAttrbDestCpuA53_0 &&
    h.effectiveCpu runningCpu ≤ xihPhAttrbDestCpuA53_3

section Hw

variable (hw : Hw)

/-! ## `XFsbl_Initialize` -/

def crlApbResetReasonPsonlyMask : UInt32 := 0x8
def xfsblApuResetMask : UInt32 := 0x10000

/-- `XFsbl_GetResetReason`. `.data` is as at the start of `main` in every case: saved from there, or
restored to it on a master-only reset. -/
def getResetReason : Fsbl UInt32 := do
  let val ← readReg hw .resetReason
  if val &&& crlApbResetReasonPsonlyMask ≠ 0 then pure xfsblPsOnlyReset
  else do
    let storage ← readReg hw .globGenStorage4
    if (storage &&& xfsblApuResetMask) >>> 16 = xfsblSystemReset then pure xfsblSystemReset
    else pure xfsblMasterOnlyReset

def systemInit (resetReason : UInt32) : Fsbl Unit := do
  when (resetReason ≠ xfsblPsOnlyReset) do
    let version ← readReg hw .psVersion
    when (version ≤ 1) do
      checkedAs hw .powerUpPl xfsblErrorPlPowerUp
      checkedAs hw .isolationRestore xfsblErrorPmuGlobalReqIso
  when (resetReason = xfsblPsOnlyReset) (wait hw .waitAibCleared)
  checked hw .hookPsuInit

def xfsblClusterIdMask : UInt32 := 0xF00
def xfsblA53Processor : UInt32 := 0x0
def xfsblR5Processor : UInt32 := 0x100
def rpuGlblCntlSlsplitMask : UInt32 := 0x8
def xplatZynqUltraMpQemu : UInt32 := 0x3

/-- `XFSBL_R5_LOVEC_VALUE` at the eight low vectors. -/
def lowVectors : List UInt8 := (List.replicate 8 (leBytes 4 0xEAFEFFFE)).flatten

/-- The cluster ID as remapped for an R5 under QEMU; R5-1 is not supported. -/
def remapClusterId (platform clusterId : UInt32) : Except UInt32 UInt32 :=
  if platform = xplatZynqUltraMpQemu then
    if clusterId = 0x80000004 then .ok 0xC0000100
    else if clusterId = 0x80000005 then .error xfsblErrorUnsupportedClusterId
    else .ok clusterId
  else .ok clusterId

def processorInit : Fsbl Unit := do
  let mpidr ← readReg hw .mpidr
  let platform ← readReg hw .platformInfo
  let clusterId ← ofExcept (remapClusterId platform mpidr)
  if clusterId &&& xfsblClusterIdMask = xfsblA53Processor then
    modifyInst fun i =>
      { i with processorID := xihPhAttrbDestCpuA53_0, a53ExecState := xihPhAttrbA53ExecStAa64 }
  else if clusterId &&& xfsblClusterIdMask = xfsblR5Processor then do
    let regValue ← readReg hw .rpuGlblCntl
    let processorID :=
      if regValue &&& rpuGlblCntlSlsplitMask = 0 then xihPhAttrbDestCpuR5L else xihPhAttrbDestCpuR5_0
    modifyInst fun i => { i with processorID, a53ExecState := xihInvalidExecSt }
    act (.stored 0 lowVectors)
  else throw (.status xfsblErrorUnsupportedClusterId)

/-- `XFsbl_TcmInit`: not for an A53 in this build. -/
def tcmInit : Fsbl Unit := do
  let w ← get
  when (w.inst.processorID ≠ xihPhAttrbDestCpuA53_0) (tcmEccInit hw w.inst.processorID)

def fsblInitialize : Fsbl Unit := do
  let resetReason ← getResetReason hw
  modifyInst fun i => { i with resetReason }
  when (resetReason ≠ xfsblMasterOnlyReset) (systemInit hw resetReason)
  processorInit hw
  when (resetReason ≠ xfsblMasterOnlyReset) do
    tcmInit hw
    checked hw .boardInit
  tpmMeasureRom hw

/-! ## Boot device -/

/-- Fills `DeviceOps` and initialises the driver. -/
def useDevice (controller : Controller) (device : Device) (bootMode : UInt32) : Fsbl Unit := do
  ensure (hw.controllers controller = true) xfsblErrorUnsupportedBootMode
  modifyInst fun i => { i with deviceOps := some device }
  checked hw (.deviceInit device bootMode)

/-- USB counts as a device boot mode before it is refused. -/
def primaryBootDeviceInit : Fsbl Unit := do
  let reg ← readReg hw .bootModeUser
  let bootMode := reg &&& crlApbBootModeUserBootModeMask
  modifyInst fun i => { i with primaryBootDevice := bootMode }
  when ((bootModeDevice bootMode).isSome ∨ bootMode = xfsblUsbBootMode) (checked hw .csuDmaInit)
  if bootMode = xfsblJtagBootMode then throw (.status xfsblStatusJtag)
  else
    match bootModeDevice bootMode with
    | some (controller, device) => useDevice hw controller device bootMode
    | none => throw (.status xfsblErrorUnsupportedBootMode)

/-! ## Headers -/

/-- Stores partition header `i`. -/
def setHeader (i : Nat) (h : PartitionHeader) : Fsbl Unit := do
  when (¬ i < xihMaxPartitions) (throw (.headerOutOfBounds i))
  modifyInst fun inst =>
    { inst with
      imageHeader :=
        { inst.imageHeader with
          partitionHeader := inst.imageHeader.partitionHeader.setIfInBounds i h } }
  act (.headerRead i)

/-- `fromImageHdr`: `DeviceOps` is `NULL`, and the headers come from `ImageHdr`. -/
def readHeaderBytes (fromImageHdr : Bool) (flashImageOffsetAddress address : UInt32) : Fsbl Mem :=
  if fromImageHdr then do
    let w ← get
    pure fun i => w.readBuffer (address.toNat + i)
  else deviceRead hw (flashImageOffsetAddress + address) xihPhLen

/-- The loop over the partition headers: `remaining` of them, from `index` on. -/
def readPartitionHeaders (fromImageHdr : Bool)
    (flashImageOffsetAddress runningCpu imageHeaderTableAddressOffset : UInt32) :
    Nat → Nat → UInt32 → Nat → Fsbl Unit
  | 0, _, _, _ => pure ()
  | remaining + 1, index, partitionHeaderAddress, entryCount => do
    let address :=
      if fromImageHdr then partitionHeaderAddress - imageHeaderTableAddressOffset
      else partitionHeaderAddress
    let bytes ← readHeaderBytes hw fromImageHdr flashImageOffsetAddress address
    let h := PartitionHeader.ofBytes bytes
    setHeader index h
    let isEntry := isAtfEntry h runningCpu index entryCount
    when isEntry do
      modify fun w =>
        { w with atfHandoffParams := setATFHandoffParameters w.atfHandoffParams h entryCount }
    readPartitionHeaders fromImageHdr flashImageOffsetAddress runningCpu
      imageHeaderTableAddressOffset remaining (index + 1)
      (h.nextPartitionOffset * xihPartitionWordLength) (if isEntry then entryCount + 1 else entryCount)

/-- Stores the image header table. -/
def setTable (t : ImageHeaderTable) : Fsbl Unit := do
  modifyInst fun inst =>
    { inst with imageHeader := { inst.imageHeader with imageHeaderTable := t } }
  act (.tableRead t)

def readImageHeader (fromImageHdr : Bool)
    (flashImageOffsetAddress runningCpu imageHeaderTableAddressOffset : UInt32) : Fsbl Unit := do
  let bytes ← readHeaderBytes hw fromImageHdr flashImageOffsetAddress
    (if fromImageHdr then 0 else imageHeaderTableAddressOffset)
  let t := ImageHeaderTable.ofBytes bytes
  setTable t
  let status := validateImageHeaderTable t
  if status = xfsblStatusSecondaryBootMode then pure ()
  else do
    ensure (status = xfsblSuccess) status
    readPartitionHeaders hw fromImageHdr flashImageOffsetAddress runningCpu
      imageHeaderTableAddressOffset t.noOfPartitions.toNat 0
      (t.partitionHeaderAddress * xihPartitionWordLength) 0

/-! ## `XFsbl_ValidateHeader` -/

def xfsblImageSearchOffset : UInt32 := 0x8000
def xihBhMaxSize : Nat := 0x8B8 + 0x182 * 4
def readBufferSize : Nat := 56 * 1024
def efuseSecCtrlRsaEnMask : UInt32 := 0x03FFF800
def xihBhImageAttrbRsaMask : UInt32 := 0xC000
def xihIhtAcOffset : UInt32 := 0x10

/-- The boot modes with a file system, where the image is a file. -/
def isFileBootMode (bootMode : UInt32) : Bool :=
  bootMode == xfsblSd0BootMode || bootMode == xfsblEmmcBootMode || bootMode == xfsblSd1BootMode ||
    bootMode == xfsblSd1LsBootMode || bootMode == xfsblUsbBootMode

/-- `DeviceCopy` to `ReadBuffer`. -/
def readToBuffer (srcAddress : UInt32) (length : Nat) : Fsbl Unit := do
  when (¬ length ≤ readBufferSize) (throw .imageHdrOverrun)
  let bytes ← deviceRead hw srcAddress length
  modify fun w => { w with readBuffer := w.readBuffer.fill 0 length bytes }

/-- Boot header and image header are authenticated, the latter through a copy in `ImageHdr`. -/
def authenticateHeaders (imageOffsetAddress imageHeaderTableAddressOffset efuseCtrl : UInt32) :
    Fsbl Unit := do
  let field ← deviceRead hw (imageOffsetAddress + imageHeaderTableAddressOffset + xihIhtAcOffset) 4
  let acOffset := word32 field 0
  ensure (acOffset ≠ 0) xfsblErrorImageHeaderAcoffset
  let _ ← deviceRead hw (imageOffsetAddress + acOffset * xihPartitionWordLength)
    xfsblAuthCertMinSize.toNat
  checked hw (.bhAuthentication (efuseCtrl &&& efuseSecCtrlRsaEnMask ≠ 0))
  let size := acOffset * xihPartitionWordLength - imageHeaderTableAddressOffset
  readToBuffer hw (imageOffsetAddress + imageHeaderTableAddressOffset) size.toNat
  checked hw (.authentication 0)
  let w ← get
  ensure (acOffset = word32 w.readBuffer 4) xfsblErrorImageHeaderAcoffset

/-- The offset of the image in flash. -/
def imageOffset (inst : XFsblPs) (multiBootOffset : UInt32) : UInt32 :=
  if inst.secondaryBootDevice = 0 ∧ isFileBootMode inst.primaryBootDevice = false then
    multiBootOffset * xfsblImageSearchOffset
  else 0

/-- From the boot header in `ReadBuffer` on: authentication, if it is enabled, and the image
header. -/
def readHeaders (imageOffsetAddress : UInt32) : Fsbl Unit := do
  let w ← get
  let bootHdrAttrb := word32 w.readBuffer 17
  let imageHeaderTableAddressOffset := word32 w.readBuffer 38
  modifyInst fun i => { i with bootHdrAttributes := bootHdrAttrb }
  let efuseCtrl ← readReg hw .efuseSecCtrl
  let efuseRsa := efuseCtrl &&& efuseSecCtrlRsaEnMask ≠ 0
  let bhRsa := bootHdrAttrb &&& xihBhImageAttrbRsaMask = xihBhImageAttrbRsaMask
  ensure (¬ (efuseRsa ∧ bhRsa)) xfsblErrorBhAuthIsNotallowed
  if efuseRsa ∨ bhRsa then do
    modifyInst fun i => { i with authEnabled := true }
    authenticateHeaders hw imageOffsetAddress imageHeaderTableAddressOffset efuseCtrl
    readImageHeader hw true 0 w.inst.processorID imageHeaderTableAddressOffset
  else
    readImageHeader hw false imageOffsetAddress w.inst.processorID imageHeaderTableAddressOffset

def validateHeader : Fsbl Unit := do
  let multiBootOffset ← readReg hw .multiBoot
  let w ← get
  let imageOffsetAddress := imageOffset w.inst multiBootOffset
  modifyInst fun i => { i with imageOffsetAddress }
  readToBuffer hw imageOffsetAddress xihBhMaxSize
  readHeaders hw imageOffsetAddress
  tpmMeasureFsbl hw

/-! ## Secondary boot device -/

def secondaryBootDeviceInit : Fsbl Unit := do
  let w ← get
  if w.inst.secondaryBootDevice = xihIhtPpdSame then pure ()
  else
    match secBootMode w.inst.secondaryBootDevice with
    | none => throw (.status xfsblErrorUnsupportedBootMode)
    | some (controller, device, bootMode) => do
      useDevice hw controller device bootMode
      modifyInst fun i => { i with secondaryBootDevice := bootMode }
      validateHeader hw

def bootDeviceInitAndValidate : Fsbl Unit := do
  primaryBootDeviceInit hw
  validateHeader hw
  modifyInst fun i =>
    { i with secondaryBootDevice := i.imageHeader.imageHeaderTable.partitionPresentDevice }
  secondaryBootDeviceInit hw

end Hw

end MeasuredBoot
