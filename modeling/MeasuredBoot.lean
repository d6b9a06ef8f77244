import MeasuredBoot.LogRoundTrip
import MeasuredBoot.LogParser
import MeasuredBoot.Main
import MeasuredBoot.Acts
import MeasuredBoot.MeasureActs
import MeasuredBoot.PartitionActs
import MeasuredBoot.PartitionLoaded
import MeasuredBoot.BootActs
import MeasuredBoot.BootPasses
import MeasuredBoot.Errors
import MeasuredBoot.Passes
import MeasuredBoot.Runs
import MeasuredBoot.BootStages
import MeasuredBoot.LogBuffer
import MeasuredBoot.LogCapacity
import MeasuredBoot.LogAppendOnly
import MeasuredBoot.PartitionRange
import MeasuredBoot.FsblMeasurement
import MeasuredBoot.Boards
import MeasuredBoot.Completeness
import MeasuredBoot.HandoffRuns
import MeasuredBoot.Containment
import MeasuredBoot.Lib.Triple
import MeasuredBoot.Lib.Traces
import MeasuredBoot.TcmEcc
import MeasuredBoot.HeaderBuffer
import MeasuredBoot.BitstreamDigest
import MeasuredBoot.Lib.Blocks
import MeasuredBoot.ReAuthentication
import MeasuredBoot.BitstreamBlocks
import MeasuredBoot.BitstreamChunks
import MeasuredBoot.BitstreamLoop
import MeasuredBoot.ChunkSplit
import MeasuredBoot.BitstreamTransfer
import MeasuredBoot.EncryptedBitstream
import MeasuredBoot.Lib.Footprint
import MeasuredBoot.MalformedStream
import MeasuredBoot.RegularHandoff
import MeasuredBoot.ResetVector
import MeasuredBoot.HeaderReads
import MeasuredBoot.AtfParameters
import MeasuredBoot.HeaderArithmetic
import MeasuredBoot.CopyValidation
import MeasuredBoot.EarlyHandoff
import MeasuredBoot.EarlyRuns
import MeasuredBoot.Executed
import MeasuredBoot.FailedLoad
import MeasuredBoot.LogFlush
import MeasuredBoot.PmuWakeup
import MeasuredBoot.BitstreamSources
import MeasuredBoot.LoadAtomicity
import MeasuredBoot.FileNames
import MeasuredBoot.NandBlocks
import MeasuredBoot.QspiFlash
import MeasuredBoot.QspiPieces
import MeasuredBoot.Qspi32
import MeasuredBoot.QspiRanges
import MeasuredBoot.Qspi24
import MeasuredBoot.Dfu
import MeasuredBoot.DfuDownload
import MeasuredBoot.UsbBoot
import MeasuredBoot.EccInit
import MeasuredBoot.HeaderChecksum
import MeasuredBoot.ShaDriver
import MeasuredBoot.ShaDigest
import MeasuredBoot.SdCopy
import MeasuredBoot.SdHeaders
import MeasuredBoot.SdRuns
import MeasuredBoot.DdrSpd
import MeasuredBoot.Lib.Lanes
import MeasuredBoot.Lib.Tables
import MeasuredBoot.DdrHif
import MeasuredBoot.DdrAddrMap
import MeasuredBoot.Mmu
import MeasuredBoot.DdrPlaces
import MeasuredBoot.Lib.Digits
import MeasuredBoot.Lib.Newton
import MeasuredBoot.RsaCore
import MeasuredBoot.RsaSignature
import MeasuredBoot.Authentication
import MeasuredBoot.ChainOfTrust
import MeasuredBoot.BootAuthentication
import MeasuredBoot.TpmTransfer
import MeasuredBoot.TpmMeasurement
