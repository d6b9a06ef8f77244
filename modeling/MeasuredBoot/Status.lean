import Mathlib.Data.UInt

/-!
# Status codes

The return values of `xfsbl_error.h` the modelled functions use.
-/

namespace MeasuredBoot

def xfsblSuccess : UInt32 := 0x0
def xfsblStatusJtag : UInt32 := 0x1
def xfsblSuccessNotPartitionOwner : UInt32 := 0x2
def xfsblStatusContinuePartitionLoad : UInt32 := 0x3
def xfsblStatusContinueOtherHandoff : UInt32 := 0x4
def xfsblStatusSecondaryBootMode : UInt32 := 0x5
def xfsblErrorUnsupportedBootMode : UInt32 := 0x6
def xfsblErrorNoOfPartitions : UInt32 := 0xD
def xfsblErrorPpd : UInt32 := 0xE
def xfsblErrorXipAuthEncPresent : UInt32 := 0xF
def xfsblErrorXipExecAddress : UInt32 := 0x10
def xfsblErrorPartitionLength : UInt32 := 0x11
def xfsblErrorInvalidChecksumType : UInt32 := 0x12
def xfsblErrorInvalidCpuType : UInt32 := 0x13
def xfsblErrorLsCpuType : UInt32 := 0x14
def xfsblErrorInvalidDestDevice : UInt32 := 0x15
def xfsblErrorPhChecksumFailed : UInt32 := 0x17
def xfsblErrorPwrUpCpu : UInt32 := 0x18
def xfsblErrorUnsupportedClusterId : UInt32 := 0x49
def xfsblErrorIhtChecksum : UInt32 := 0x21
def xfsblErrorHandoffCpuid : UInt32 := 0x23
def xfsblErrorLoadAddress : UInt32 := 0x24
def xfsblErrorHookBeforeBitstreamDownload : UInt32 := 0x25
def xfsblErrorHookAfterBitstreamDownload : UInt32 := 0x26
def xfsblErrorHookBeforeHandoff : UInt32 := 0x27
def xfsblErrorAddress : UInt32 := 0x2E
def xfsblErrorPartRsaDecrypt : UInt32 := 0x31
def xfsblErrorDecryptionFail : UInt32 := 0x36
def xfsblErrorBitstreamGcmTagMismatch : UInt32 := 0x38
def xfsblErrorBitstreamDecryptionFail : UInt32 := 0x3A
def xfsblErrorSecureNotEnabled : UInt32 := 0x3B
def xfsblErrorPlPowerUp : UInt32 := 0x3E
def xfsblErrorA53_0PowerUp : UInt32 := 0x3F
def xfsblErrorA53_1PowerUp : UInt32 := 0x40
def xfsblErrorA53_2PowerUp : UInt32 := 0x41
def xfsblErrorA53_3PowerUp : UInt32 := 0x42
def xfsblErrorR5_0PowerUp : UInt32 := 0x43
def xfsblErrorR5_1PowerUp : UInt32 := 0x44
def xfsblErrorR5LPowerUp : UInt32 := 0x45
def xfsblErrorR5_0TcmPowerUp : UInt32 := 0x46
def xfsblErrorR5_1TcmPowerUp : UInt32 := 0x47
def xfsblErrorR5LTcmPowerUp : UInt32 := 0x48
def xfsblErrorTcmEccInit : UInt32 := 0x4D
def xfsblErrorUnsupportedHandoff : UInt32 := 0x4E
def xfsblErrorPartitionChecksumFailed : UInt32 := 0x4F
def xfsblErrorPmInit : UInt32 := 0x50
def xfsblErrorProtectionCfg : UInt32 := 0x51
def xfsblErrorUnavailableCpu : UInt32 := 0x52
def xfsblErrorPmuGlobalReqIso : UInt32 := 0x55
def xfsblErrorAesInitialize : UInt32 := 0x56
def xfsblErrorRsaInitialize : UInt32 := 0x59
def xfsblErrorChunkHashComparison : UInt32 := 0x60
def xfsblErrorProvidedBufHashStore : UInt32 := 0x61
def xfsblErrorBlockSizeSecBs : UInt32 := 0x63
def xfsblErrorImageHeaderAcoffset : UInt32 := 0x64
def xfsblErrorBhAuthIsNotallowed : UInt32 := 0x70
def xfsblSlb9670Error : UInt32 := 0x72
def xfsblErrorSha2NotSupported : UInt32 := 0x78
def xfsblFailure : UInt32 := 0x3FFFFFFF

/-- The error codes are added to the stage's own offset before the lock-down. -/
def xfsblErrorStage1 : UInt32 := 0x0
def xfsblErrorStage2 : UInt32 := 0x2000
def xfsblErrorStage3 : UInt32 := 0x4000
def xfsblErrorStage4 : UInt32 := 0x6000

end MeasuredBoot
