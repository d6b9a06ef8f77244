import MeasuredBoot.Lib.Bytes
import MeasuredBoot.Status

/-!
# Image header (`xfsbl_image_header.c`)

The image header table and the partition headers as the boot image has them,
the attribute fields, and the checks of the FSBL on them: the word checksum, the
table check and the partition header check. A check returns its status; the
order of the tests is the source's.
-/

namespace MeasuredBoot

/-! ## Layout constants (`xfsbl_image_header.h`) -/

def xihMinPartitions : Nat := 1
def xihMaxPartitions : Nat := 32
def xihPartitionWordLength : UInt32 := 0x4
def xihIhtLen : Nat := 64
def xihPhLen : Nat := 64

def xihIhtPpdSame : UInt32 := 0x0
def xihIhtPpdQspi32 : UInt32 := 0x1
def xihIhtPpdQspi24 : UInt32 := 0x2
def xihIhtPpdNand : UInt32 := 0x3
def xihIhtPpdSd0 : UInt32 := 0x4
def xihIhtPpdSd1 : UInt32 := 0x5
def xihIhtPpdSdLs : UInt32 := 0x6
def xihIhtPpdMmc : UInt32 := 0x7
def xihIhtPpdUsb : UInt32 := 0x8
def xihIhtPpdSata : UInt32 := 0xB

def xihPhAttrbVecLocationMask : UInt32 := 0x800000
def xihPhAttrBlockSizeMask : UInt32 := 0x700000
def xihPhAttrbEndianMask : UInt32 := 0x40000
def xihPhAttrbPartOwnerMask : UInt32 := 0x30000
def xihPhAttrbRsaSignatureMask : UInt32 := 0x8000
def xihPhAttrbChecksumMask : UInt32 := 0x7000
def xihPhAttrbDestCpuMask : UInt32 := 0x0F00
def xihPhAttrbEncryptionMask : UInt32 := 0x0080
def xihPhAttrbDestDeviceMask : UInt32 := 0x0070
def xihPhAttrbA53ExecStMask : UInt32 := 0x0008
def xihPhAttrbTargetElMask : UInt32 := 0x0006
def xihPhAttrbTrSecureMask : UInt32 := 0x0001

def xihPhAttrbPartOwnerFsbl : UInt32 := 0x0
def xihPhAttrbRsaSignature : UInt32 := 0x8000
def xihPhAttrbNochecksum : UInt32 := 0x0
def xihPhAttrbHashSha3 : UInt32 := 0x3000
def xihPhAttrbDestCpuNone : UInt32 := 0x0
def xihPhAttrbDestCpuA53_0 : UInt32 := 0x100
def xihPhAttrbDestCpuA53_1 : UInt32 := 0x200
def xihPhAttrbDestCpuA53_2 : UInt32 := 0x300
def xihPhAttrbDestCpuA53_3 : UInt32 := 0x400
def xihPhAttrbDestCpuR5_0 : UInt32 := 0x500
def xihPhAttrbDestCpuR5_1 : UInt32 := 0x600
def xihPhAttrbDestCpuR5L : UInt32 := 0x700
def xihPhAttrbDestCpuPmu : UInt32 := 0x800
def xihPhAttrbEncryption : UInt32 := 0x80
def xihPhAttrbDestDevicePl : UInt32 := 0x20
def xihPhAttrbDestDevicePmu : UInt32 := 0x30
def xihPhAttrbA53ExecStAa32 : UInt32 := 0x8
def xihPhAttrbA53ExecStAa64 : UInt32 := 0x0
def xihInvalidExecSt : UInt32 := 0xFFFF

/-! ## Data -/

/-- `XFsblPs_ImageHeaderTable`. -/
structure ImageHeaderTable where
  version : UInt32
  noOfPartitions : UInt32
  partitionHeaderAddress : UInt32
  reserved0xC : UInt32
  authCertificateOffset : UInt32
  partitionPresentDevice : UInt32
  reserved : Vector UInt32 9
  checksum : UInt32
  deriving DecidableEq, Inhabited

/-- `XFsblPs_PartitionHeader`. -/
structure PartitionHeader where
  encryptedDataWordLength : UInt32
  unEncryptedDataWordLength : UInt32
  totalDataWordLength : UInt32
  nextPartitionOffset : UInt32
  destinationExecutionAddress : UInt64
  destinationLoadAddress : UInt64
  dataWordOffset : UInt32
  partitionAttributes : UInt32
  sectionCount : UInt32
  checksumWordOffset : UInt32
  imageHeaderOffset : UInt32
  authCertificateOffset : UInt32
  iv : UInt32
  checksum : UInt32
  deriving DecidableEq, Inhabited

/-- `XFsblPs_ImageHeader`: the table and the `XIH_MAX_PARTITIONS` headers. -/
structure ImageHeader where
  imageHeaderTable : ImageHeaderTable
  partitionHeader : Vector PartitionHeader 32

/-- The `k`-th little-endian word of a buffer. -/
def word32 (b : Nat → UInt8) (k : Nat) : UInt32 :=
  UInt32.ofNat (ofLE [b (4 * k), b (4 * k + 1), b (4 * k + 2), b (4 * k + 3)])

/-- The doubleword at the `k`-th word of a buffer. -/
def word64 (b : Nat → UInt8) (k : Nat) : UInt64 :=
  UInt64.ofNat ((word32 b k).toNat + 2 ^ 32 * (word32 b (k + 1)).toNat)

def ImageHeaderTable.ofBytes (b : Nat → UInt8) : ImageHeaderTable where
  version := word32 b 0
  noOfPartitions := word32 b 1
  partitionHeaderAddress := word32 b 2
  reserved0xC := word32 b 3
  authCertificateOffset := word32 b 4
  partitionPresentDevice := word32 b 5
  reserved := Vector.ofFn fun i => word32 b (6 + i)
  checksum := word32 b 15

def PartitionHeader.ofBytes (b : Nat → UInt8) : PartitionHeader where
  encryptedDataWordLength := word32 b 0
  unEncryptedDataWordLength := word32 b 1
  totalDataWordLength := word32 b 2
  nextPartitionOffset := word32 b 3
  destinationExecutionAddress := word64 b 4
  destinationLoadAddress := word64 b 6
  dataWordOffset := word32 b 8
  partitionAttributes := word32 b 9
  sectionCount := word32 b 10
  checksumWordOffset := word32 b 11
  imageHeaderOffset := word32 b 12
  authCertificateOffset := word32 b 13
  iv := word32 b 14
  checksum := word32 b 15

/-- The table as the `u32` buffer the checksum runs over. -/
def ImageHeaderTable.words (t : ImageHeaderTable) : List UInt32 :=
  [t.version, t.noOfPartitions, t.partitionHeaderAddress, t.reserved0xC, t.authCertificateOffset,
    t.partitionPresentDevice] ++ t.reserved.toList ++ [t.checksum]

/-- The header as the `u32` buffer the checksum runs over. -/
def PartitionHeader.words (h : PartitionHeader) : List UInt32 :=
  [h.encryptedDataWordLength, h.unEncryptedDataWordLength, h.totalDataWordLength,
    h.nextPartitionOffset, h.destinationExecutionAddress.toUInt32,
    (h.destinationExecutionAddress >>> 32).toUInt32, h.destinationLoadAddress.toUInt32,
    (h.destinationLoadAddress >>> 32).toUInt32, h.dataWordOffset, h.partitionAttributes,
    h.sectionCount, h.checksumWordOffset, h.imageHeaderOffset, h.authCertificateOffset, h.iv,
    h.checksum]

/-- The `.data` image of the header block: all zero until something is read. -/
def ImageHeaderTable.zero : ImageHeaderTable := ⟨0, 0, 0, 0, 0, 0, Vector.replicate 9 0, 0⟩

def PartitionHeader.zero : PartitionHeader := ⟨0, 0, 0, 0, 0, 0, 0, 0, 0, 0, 0, 0, 0, 0⟩

def ImageHeader.zero : ImageHeader := ⟨.zero, Vector.replicate 32 .zero⟩

/-! ## Attribute fields -/

namespace PartitionHeader

variable (h : PartitionHeader)

def getPartitionOwner : UInt32 := h.partitionAttributes &&& xihPhAttrbPartOwnerMask
def isRsaSignaturePresent : UInt32 := h.partitionAttributes &&& xihPhAttrbRsaSignatureMask
def getChecksumType : UInt32 := h.partitionAttributes &&& xihPhAttrbChecksumMask
def getDestinationCpu : UInt32 := h.partitionAttributes &&& xihPhAttrbDestCpuMask
def isEncrypted : UInt32 := h.partitionAttributes &&& xihPhAttrbEncryptionMask
def getDestinationDevice : UInt32 := h.partitionAttributes &&& xihPhAttrbDestDeviceMask
def getA53ExecState : UInt32 := h.partitionAttributes &&& xihPhAttrbA53ExecStMask
def getVectorLocation : UInt32 := h.partitionAttributes &&& xihPhAttrbVecLocationMask

def getBlockSize : UInt32 :=
  let size := (h.partitionAttributes &&& xihPhAttrBlockSizeMask) >>> 20
  if size ≠ 0 then (2 <<< size) * (1024 * 1024) else size

/-! The comparisons every user of the fields makes. -/

def encrypted : Bool := h.isEncrypted == xihPhAttrbEncryption
def authenticated : Bool := h.isRsaSignaturePresent == xihPhAttrbRsaSignature
def toPl : Bool := h.getDestinationDevice == xihPhAttrbDestDevicePl

/-- `if (DestinationCpu == XIH_PH_ATTRB_DEST_CPU_NONE)`: the running processor stands in. -/
def effectiveCpu (runningCpu : UInt32) : UInt32 :=
  if h.getDestinationCpu = xihPhAttrbDestCpuNone then runningCpu else h.getDestinationCpu

end PartitionHeader

/-- The values of the CPU field up to the PMU. -/
theorem cpu_values : ∀ c < 2049, c &&& 0xF00 = c →
    c ∈ [0, 0x100, 0x200, 0x300, 0x400, 0x500, 0x600, 0x700, 0x800] := by decide +kernel

/-! ## `XFsbl_ValidateChecksum` -/

def validateChecksum (buffer : List UInt32) : UInt32 :=
  if buffer.length < 2 then xfsblFailure
  else
    let checksum := (buffer.take (buffer.length - 1)).foldl (· + ·) 0 ^^^ 0xFFFFFFFF
    if buffer.getLast? ≠ some checksum then xfsblFailure else xfsblSuccess

/-! ## `XFsbl_ValidateImageHeaderTable` -/

def validateImageHeaderTable (t : ImageHeaderTable) : UInt32 :=
  if validateChecksum t.words ≠ xfsblSuccess then xfsblErrorIhtChecksum
  else if t.partitionPresentDevice < xihIhtPpdSame ∨ t.partitionPresentDevice > xihIhtPpdSata then
    xfsblErrorPpd
  else if t.partitionPresentDevice ≠ xihIhtPpdSame then xfsblStatusSecondaryBootMode
  else if t.noOfPartitions.toNat ≤ xihMinPartitions ∨ t.noOfPartitions.toNat > xihMaxPartitions then
    xfsblErrorNoOfPartitions
  else xfsblSuccess

/-! ## Memory regions (`xfsbl_hw.h`, `xparameters.h`) -/

def xfsblPmuRamStartAddress : UInt64 := 0xFFDC0000
def xfsblPmuRamEndAddress : UInt64 := 0xFFDDFFFF
def xfsblR5TcmStartAddress : UInt64 := 0x0
def xfsblR5BtcmStartAddress : UInt64 := 0x20000
def xfsblR5TcmBankLength : UInt64 := 0x10000
def xfsblR50HighAtcmStartAddress : UInt64 := 0xFFE00000
def xfsblR50HighBtcmStartAddress : UInt64 := 0xFFE20000
def xfsblR51HighAtcmStartAddress : UInt64 := 0xFFE90000
def xfsblR51HighBtcmStartAddress : UInt64 := 0xFFEB0000
def xfsblPsDdrStartAddress : UInt64 := 0x0
def xfsblPsDdrEndAddress : UInt64 := 0x7FEFFFFF
def xfsblOcmStartAddress : UInt64 := 0xFFFEA000
def xfsblOcmEndAddress : UInt64 := 0xFFFFFFFF
def xfsblQspiLinearBaseAddressStart : UInt64 := 0xC0000000
def xfsblQspiLinearBaseAddressEnd : UInt64 := 0xDFFFFFFF
def xfsblDummyPlAddr : UInt64 := 0xFFFFFFFF
def xfsblDdrTempAddress : UInt64 := 0x100000

/-- An address in one bank of the R5's own view of its TCMs. -/
def inR5TcmBank (address : UInt64) : Prop :=
  (xfsblR5TcmStartAddress ≤ address ∧ address < xfsblR5TcmStartAddress + xfsblR5TcmBankLength) ∨
    (xfsblR5BtcmStartAddress ≤ address ∧
      address < xfsblR5BtcmStartAddress + xfsblR5TcmBankLength)

instance (address : UInt64) : Decidable (inR5TcmBank address) :=
  inferInstanceAs (Decidable (_ ∨ _))

/-- An address in the combined lockstep TCM. -/
def inR5LTcm (address : UInt64) : Prop :=
  xfsblR5TcmStartAddress ≤ address ∧
    address < xfsblR5TcmStartAddress + xfsblR5TcmBankLength * 4

instance (address : UInt64) : Decidable (inR5LTcm address) :=
  inferInstanceAs (Decidable (_ ∧ _))

/-- `XFsbl_CheckValidMemoryAddress`: PMU RAM, the CPU's TCM, PS DDR, the last OCM bank, or the
placeholder address of a bitstream. -/
def checkValidMemoryAddress (address : UInt64) (cpuId devId : UInt32) : UInt32 :=
  if cpuId = xihPhAttrbDestCpuPmu ∧ xfsblPmuRamStartAddress ≤ address ∧
      address < xfsblPmuRamEndAddress then xfsblSuccess
  else if (cpuId = xihPhAttrbDestCpuR5_0 ∨ cpuId = xihPhAttrbDestCpuR5_1) ∧
      inR5TcmBank address then xfsblSuccess
  else if cpuId = xihPhAttrbDestCpuR5L ∧ inR5LTcm address then xfsblSuccess
  else if xfsblPsDdrStartAddress ≤ address ∧ address ≤ xfsblPsDdrEndAddress then xfsblSuccess
  else if xfsblOcmStartAddress ≤ address ∧ address < xfsblOcmEndAddress then xfsblSuccess
  else if devId = xihPhAttrbDestDevicePl ∧ address = xfsblDummyPlAddr then xfsblSuccess
  else xfsblErrorAddress

/-! ## `XFsbl_ValidatePartitionHeader` -/

def efuseSecCtrlEncOnlyMask : UInt32 := 0x4
def xfsblSystemReset : UInt32 := 0x0
def xfsblPsOnlyReset : UInt32 := 0x1
def xfsblMasterOnlyReset : UInt32 := 0x2

/-- The relation of the three length words, by encryption and authentication. -/
def partitionLengthsOk (h : PartitionHeader) : Bool :=
  match h.authenticated, h.encrypted with
  | false, false =>
    h.unEncryptedDataWordLength == h.encryptedDataWordLength &&
      h.encryptedDataWordLength == h.totalDataWordLength
  | true, false =>
    h.unEncryptedDataWordLength == h.encryptedDataWordLength &&
      h.encryptedDataWordLength < h.totalDataWordLength
  | false, true =>
    h.unEncryptedDataWordLength < h.encryptedDataWordLength &&
      h.encryptedDataWordLength == h.totalDataWordLength
  | true, true =>
    h.unEncryptedDataWordLength < h.encryptedDataWordLength &&
      h.encryptedDataWordLength < h.totalDataWordLength

/-- On a master-only reset only the partitions of the restarted master are loaded. -/
def ownedByRestartedMaster (runningCpu destinationCpu : UInt32) : Bool :=
  (runningCpu == xihPhAttrbDestCpuA53_0 && destinationCpu ≤ xihPhAttrbDestCpuA53_3 &&
      destinationCpu ≥ xihPhAttrbDestCpuA53_0) ||
    (runningCpu == xihPhAttrbDestCpuR5_0 && destinationCpu == xihPhAttrbDestCpuR5_0) ||
    (runningCpu == xihPhAttrbDestCpuR5L && destinationCpu == xihPhAttrbDestCpuR5L)

/-- `efuseSecCtrl` is the value read from `EFUSE_SEC_CTRL`. -/
def validatePartitionHeader (h : PartitionHeader) (runningCpu resetType efuseSecCtrl : UInt32) :
    UInt32 :=
  let destinationCpu := h.effectiveCpu runningCpu
  if efuseSecCtrl &&& efuseSecCtrlEncOnlyMask ≠ 0 ∧ h.encrypted = false then xfsblFailure
  else if resetType = xfsblMasterOnlyReset ∧
      ownedByRestartedMaster runningCpu h.getDestinationCpu = false then
    xfsblSuccessNotPartitionOwner
  else if h.unEncryptedDataWordLength = 0 ∧ (h.authenticated = true ∨ h.encrypted = true) then
    xfsblErrorXipAuthEncPresent
  else if h.unEncryptedDataWordLength = 0 ∧
      (h.destinationExecutionAddress < xfsblQspiLinearBaseAddressStart ∨
        h.destinationExecutionAddress > xfsblQspiLinearBaseAddressEnd) then
    xfsblErrorXipExecAddress
  else if partitionLengthsOk h = false then xfsblErrorPartitionLength
  else if checkValidMemoryAddress h.destinationLoadAddress destinationCpu
      h.getDestinationDevice ≠ xfsblSuccess then
    checkValidMemoryAddress h.destinationLoadAddress destinationCpu h.getDestinationDevice
  else if (runningCpu = xihPhAttrbDestCpuR5_0 ∨ runningCpu = xihPhAttrbDestCpuR5L) ∧
      (destinationCpu = xihPhAttrbDestCpuA53_0 ∨ destinationCpu = xihPhAttrbDestCpuA53_1 ∨
        destinationCpu = xihPhAttrbDestCpuA53_2 ∨ destinationCpu = xihPhAttrbDestCpuA53_3) ∧
      h.destinationLoadAddress < 0x40000 then
    xfsblErrorAddress
  else if h.getChecksumType ≠ xihPhAttrbNochecksum ∧ h.getChecksumType ≠ xihPhAttrbHashSha3 then
    xfsblErrorInvalidChecksumType
  else if destinationCpu > xihPhAttrbDestCpuPmu then xfsblErrorInvalidCpuType
  else if ((destinationCpu = xihPhAttrbDestCpuR5_0 ∨ destinationCpu = xihPhAttrbDestCpuR5_1) ∧
        runningCpu = xihPhAttrbDestCpuR5L) ∨
      (destinationCpu = xihPhAttrbDestCpuR5L ∧ runningCpu = xihPhAttrbDestCpuR5_0) then
    xfsblErrorLsCpuType
  else if h.getDestinationDevice > xihPhAttrbDestDevicePmu then xfsblErrorInvalidDestDevice
  else xfsblSuccess

theorem checkValidMemoryAddress_cases (address : UInt64) (cpuId devId : UInt32) :
    checkValidMemoryAddress address cpuId devId = xfsblSuccess ∨
      checkValidMemoryAddress address cpuId devId = xfsblErrorAddress := by
  unfold checkValidMemoryAddress
  repeat' split
  all_goals simp

/-- A partition of another owner: by its attributes, or a bystander of a master-only reset. -/
def NotOwned (h : PartitionHeader) (runningCpu resetType : UInt32) : Prop :=
  h.getPartitionOwner ≠ xihPhAttrbPartOwnerFsbl ∨
    resetType = xfsblMasterOnlyReset ∧ ownedByRestartedMaster runningCpu h.getDestinationCpu = false

instance (h : PartitionHeader) (runningCpu resetType : UInt32) :
    Decidable (NotOwned h runningCpu resetType) := inferInstanceAs (Decidable (_ ∨ _))

/-- What the validator says about a header it accepts. -/
structure Accepted (h : PartitionHeader) (runningCpu resetType : UInt32) : Prop where
  owned : ¬ (resetType = xfsblMasterOnlyReset ∧
    ownedByRestartedMaster runningCpu h.getDestinationCpu = false)
  xipPlain : ¬ (h.unEncryptedDataWordLength = 0 ∧ (h.authenticated = true ∨ h.encrypted = true))
  lengths : ¬ partitionLengthsOk h = false
  address : ¬ checkValidMemoryAddress h.destinationLoadAddress (h.effectiveCpu runningCpu)
    h.getDestinationDevice ≠ xfsblSuccess
  cpu : ¬ h.effectiveCpu runningCpu > xihPhAttrbDestCpuPmu
  device : ¬ h.getDestinationDevice > xihPhAttrbDestDevicePmu

/-- A chain of tests that ends in `c` did not take a test with another result. -/
theorem ite_eq_of_ne {α : Type} {p : Prop} [Decidable p] {a b c : α}
    (h : (if p then a else b) = c) (ha : a ≠ c) : ¬ p ∧ b = c := by
  by_cases hp : p
  · rw [if_pos hp] at h
    exact absurd h ha
  · rw [if_neg hp] at h
    exact ⟨hp, h⟩

theorem validatePartitionHeader_success {h : PartitionHeader} {runningCpu resetType e : UInt32}
    (hs : validatePartitionHeader h runningCpu resetType e = xfsblSuccess) :
    Accepted h runningCpu resetType := by
  unfold validatePartitionHeader at hs
  obtain ⟨_, hs⟩ := ite_eq_of_ne hs (by decide)
  obtain ⟨owned, hs⟩ := ite_eq_of_ne hs (by decide)
  obtain ⟨xipPlain, hs⟩ := ite_eq_of_ne hs (by decide)
  obtain ⟨_, hs⟩ := ite_eq_of_ne hs (by decide)
  obtain ⟨lengths, hs⟩ := ite_eq_of_ne hs (by decide)
  have address : ¬ checkValidMemoryAddress h.destinationLoadAddress (h.effectiveCpu runningCpu)
      h.getDestinationDevice ≠ xfsblSuccess := by
    intro ha
    rw [if_pos ha] at hs
    exact ha hs
  rw [if_neg address] at hs
  obtain ⟨_, hs⟩ := ite_eq_of_ne hs (by decide)
  obtain ⟨_, hs⟩ := ite_eq_of_ne hs (by decide)
  obtain ⟨cpu, hs⟩ := ite_eq_of_ne hs (by decide)
  obtain ⟨_, hs⟩ := ite_eq_of_ne hs (by decide)
  obtain ⟨device, -⟩ := ite_eq_of_ne hs (by decide)
  exact ⟨owned, xipPlain, lengths, address, cpu, device⟩

theorem validatePartitionHeader_notOwner {h : PartitionHeader} {runningCpu resetType e : UInt32}
    (hs : validatePartitionHeader h runningCpu resetType e = xfsblSuccessNotPartitionOwner) :
    resetType = xfsblMasterOnlyReset ∧
      ownedByRestartedMaster runningCpu h.getDestinationCpu = false := by
  unfold validatePartitionHeader at hs
  obtain ⟨_, hs⟩ := ite_eq_of_ne hs (by decide)
  by_contra hn
  rw [if_neg hn] at hs
  obtain ⟨_, hs⟩ := ite_eq_of_ne hs (by decide)
  obtain ⟨_, hs⟩ := ite_eq_of_ne hs (by decide)
  obtain ⟨_, hs⟩ := ite_eq_of_ne hs (by decide)
  have hc : checkValidMemoryAddress h.destinationLoadAddress (h.effectiveCpu runningCpu)
      h.getDestinationDevice ≠ xfsblSuccessNotPartitionOwner := by
    rcases checkValidMemoryAddress_cases h.destinationLoadAddress (h.effectiveCpu runningCpu)
      h.getDestinationDevice with hc | hc <;> rw [hc] <;> decide
  obtain ⟨_, hs⟩ := ite_eq_of_ne hs hc
  obtain ⟨_, hs⟩ := ite_eq_of_ne hs (by decide)
  obtain ⟨_, hs⟩ := ite_eq_of_ne hs (by decide)
  obtain ⟨_, hs⟩ := ite_eq_of_ne hs (by decide)
  obtain ⟨_, hs⟩ := ite_eq_of_ne hs (by decide)
  obtain ⟨_, hs⟩ := ite_eq_of_ne hs (by decide)
  exact absurd hs (by decide)

end MeasuredBoot
