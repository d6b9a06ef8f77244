import MeasuredBoot.EventPrint
import MeasuredBoot.ImageHeader
import MeasuredBoot.Lib.Prog

/-!
# The machine the FSBL runs on

`Hw` is everything outside the modelled functions: registers, the flash drivers,
the crypto engines, the board's own code. It answers each question by the
number of questions asked before it, so a register may change and a driver may
fail at any time. `World` is the state of the FSBL: the addressed memory, the
instance structure, the log pointer, the partition counter. What the code does
to memory, log and handoff table goes through `act`, one `Act` each, and
`World.apply` says what an `Act` does; `trace` keeps them in order (a history
variable: no function reads it). The FSBL's own C objects are fields, apart from
the addressed memory.
-/

namespace MeasuredBoot

/-! ## The hardware -/

/-- The flash drivers. -/
inductive Device where
  | qspi24
  | qspi32
  | nand
  | sd
  deriving DecidableEq

/-- The flash controllers a build has code for (`XFSBL_QSPI`, `XFSBL_NAND`, `XFSBL_SD_0`,
`XFSBL_SD_1`). -/
inductive Controller where
  | qspi
  | nand
  | sd0
  | sd1
  deriving DecidableEq

/-- The registers whose value decides something. -/
inductive Reg where
  | resetReason
  | globGenStorage4
  | mpidr
  | platformInfo
  | psVersion
  | rpuGlblCntl
  | bootModeUser
  | multiBoot
  | efuseSecCtrl
  deriving DecidableEq

/-- The TCM regions of `XFsbl_PowerUpMemory`. -/
inductive TcmMemory where
  | r5_0
  | r5_1
  | r5L
  deriving DecidableEq

/-- Calls whose status comes from outside the model, and waits (status 0: the wait ends). -/
inductive Call where
  | powerUpPl
  | isolationRestore
  | waitAibCleared
  | hookPsuInit
  | boardInit
  | csuDmaInit
  | deviceInit (device : Device) (bootMode : UInt32)
  | bhAuthentication (efuseRsaEn : Bool)
  | authentication (partitionNum : Nat)
  | powerUpTcm (memory : TcmMemory)
  | waitDmaIdle
  | waitDmaDone
  | dmaStatus
  | waitPmuSleep
  | aesInitialize
  | hookBeforeBSDownload
  | pcapInit
  | secPlPartition (partitionNum : Nat)
  | waitCsuDmaDone
  | pcapWaitForDone
  | aesKeyZero
  | plWaitForDone
  | hookAfterBSDownload
  | waitPmuFwPresent
  | pmInit
  | psuProtection
  | psuProtectionLock
  | hookBeforeHandoff
  | checkSupportedCpu (cpuId : UInt32)
  | powerUpCpu (cpuSettings : UInt32)
  deriving DecidableEq

/-- How a use of the SHA3 engine ends. `timeout`: the last step timed out, its status is dropped and
the digest buffer stays as it was. `stuck`: an earlier step failed and the next one asserts. -/
inductive ShaEnd where
  | done
  | timeout
  | stuck
  deriving DecidableEq

/-- The calls of stage 2, where a status of `XFSBL_STATUS_JTAG` has a meaning. -/
def Call.OfBootDevice : Call → Prop
  | .csuDmaInit | .deviceInit .. | .bhAuthentication _ | .authentication _ => True
  | _ => False

/-- `callStatus`, `copyStatus`: the boot device functions return `XFSBL_SUCCESS` or an error code, never
`XFSBL_STATUS_JTAG`. -/
structure Hw where
  controllers : Controller → Bool
  in32 : Nat → Reg → UInt32
  call : Nat → Call → UInt32
  /-- `DeviceCopy` from a flash address: its status and the bytes it writes. -/
  deviceCopy : Nat → Device → UInt32 → Nat → UInt32 × Mem
  /-- The words at `CSU_ROM_DIGEST_ADDR`. -/
  romDigest : Nat → UInt32
  sha : Nat → ShaEnd
  /-- The SHA3-384 engine on padded data. -/
  keccak : List UInt8 → Digest
  /-- `XSecure_AesDecrypt` in place: its status and the bytes it writes. -/
  aesDecrypt : Nat → UInt32 × Mem
  /-- Per block of an encrypted bitstream: the status of its decryption and the length of the next
  block. -/
  aesBlocks : Nat → List (UInt32 × UInt32)
  /-- What the SHA3 engine gives for a bitstream the driver did not count. -/
  streamDigest : Nat → Digest
  callStatus : ∀ t c, c.OfBootDevice → call t c ≠ xfsblStatusJtag
  copyStatus : ∀ t device srcAddress length,
    (deviceCopy t device srcAddress length).1 ≠ xfsblStatusJtag

/-- `XSecure_Sha3NistPadd` for a message of `n` bytes. -/
def nistPad (n : Nat) : List UInt8 :=
  if 104 - n % 104 = 1 then [0x86] else 0x06 :: List.replicate (102 - n % 104) 0 ++ [0x80]

/-- The SHA3-384 hash of a message. -/
def sha3 (hw : Hw) (message : List UInt8) : Digest := hw.keccak (message ++ nistPad message.length)

/-! ## The state -/

/-- `XFsblPs_HandoffValues`. -/
structure HandoffValue where
  cpuSettings : UInt32
  handoffAddress : UInt64
  deriving DecidableEq

/-- The length of the `HandoffValues` array. -/
def maxHandoffValues : Nat := 10

/-- `XFsblPs`. `handoffValues` holds the first `HandoffCpuNo` entries of the array. -/
structure XFsblPs where
  processorID : UInt32
  a53ExecState : UInt32
  bootHdrAttributes : UInt32
  authEnabled : Bool
  imageOffsetAddress : UInt32
  imageHeader : ImageHeader
  errorCode : UInt32
  primaryBootDevice : UInt32
  secondaryBootDevice : UInt32
  deviceOps : Option Device
  handoffValues : List HandoffValue
  resetReason : UInt32
  tcmEccInitStatus : UInt32

/-- `FsblInstance` at the start of `main`. -/
def XFsblPs.initial : XFsblPs where
  processorID := 0
  a53ExecState := 0
  bootHdrAttributes := 0
  authEnabled := false
  imageOffsetAddress := 0
  imageHeader := .zero
  errorCode := 0
  primaryBootDevice := 0
  secondaryBootDevice := 0
  deviceOps := none
  handoffValues := []
  resetReason := 0
  tcmEccInitStatus := 0

/-- `XFsblPs_ATFHandoffParams`. -/
structure ATFHandoffParams where
  magicValue : List UInt8
  numEntries : UInt32
  entry : Vector (UInt64 × UInt64) 8

/-- What an event of the log is about. -/
inductive Subject where
  | rom
  | fsbl
  | partition (n : Nat)
  | bitstream (n : Nat)
  deriving DecidableEq

/-- What the FSBL does to memory, log and handoff table, or passes on the way. -/
inductive Act where
  /-- `event_log_write_header` at `log_ptr2`. -/
  | logHeader
  /-- A hash of `input`, read from `start` on. -/
  | hashed (subject : Subject) (start : Nat) (input : List UInt8)
  /-- `event_log_record` at `log_ptr2`. -/
  | recorded (subject : Subject) (e : Event)
  /-- `partition += 1`. -/
  | counted
  /-- `Xil_DCacheFlushRange`. -/
  | flushed (start len : Nat)
  /-- The image header table was read. -/
  | tableRead (t : ImageHeaderTable)
  /-- Partition header `i` was read. -/
  | headerRead (i : Nat)
  /-- The checksum of partition header `i` was tested. -/
  | headerChecked (i : Nat) (ok : Bool)
  /-- One transfer of `XFsbl_EccInit`. -/
  | eccInit (start len : Nat)
  /-- Stores to fixed addresses. -/
  | stored (start : Nat) (bytes : List UInt8)
  /-- `len` bytes of partition `n` were copied or decrypted to `start`. -/
  | placed (n start len : Nat) (data : Mem)
  /-- Partition `n` supplied an entry of the handoff table. -/
  | handoffEntry (n : Nat) (v : HandoffValue)
  /-- `XFsbl_PartitionLoad` was called and returned. -/
  | loadCalled (n : Nat)
  | loadReturned (n : Nat) (status : UInt32)
  /-- The PMU was woken. -/
  | pmuWoken
  /-- Bits set in `XFSBL_R5_USAGE_STATUS_REG`, and its clearing. -/
  | r5Used (mask : UInt32)
  | r5UsageCleared
  /-- `XFsbl_Handoff` was called. -/
  | handoffCalled
  /-- `XFsbl_UpdateResetVector` for another CPU, its power-up and its release from reset. -/
  | resetVector (handoffAddress : UInt64) (cpuSettings vector : UInt32)
  | poweredUp (cpuSettings : UInt32)
  | released (cpuSettings : UInt32)

structure World where
  /-- How many questions the hardware was asked. -/
  tick : Nat
  mem : Mem
  inst : XFsblPs
  /-- `log_ptr2`. -/
  logPtr2 : Nat
  /-- `int partition` of `fsbl_measured_boot.c`. -/
  partition : Nat
  /-- `ReadBuffer`, which `ImageHdr` points to. -/
  readBuffer : Mem
  atfHandoffParams : ATFHandoffParams
  trace : List Act

/-- `XFSBL_ECC_INIT_VAL_WORD`, over and over. -/
def eccInitVal : Mem := fun i => (leBytes 4 0xDEADBEEF).getD (i % 4) 0

namespace World

/-- What an `Act` does to the state. -/
def effect (w : World) : Act → World
  | .logHeader =>
    let (mem, logPtr2) := eventLogWriteHeader w.mem w.logPtr2
    { w with mem, logPtr2 }
  | .recorded _ e =>
    let (mem, logPtr2) := eventLogRecord w.mem e w.logPtr2
    { w with mem, logPtr2 }
  | .counted => { w with partition := w.partition + 1 }
  | .eccInit start len => { w with mem := w.mem.fill start len eccInitVal }
  | .stored start bytes => { w with mem := w.mem.store start bytes }
  | .placed _ start len data => { w with mem := w.mem.fill start len data }
  | .handoffEntry _ v =>
    { w with inst := { w.inst with handoffValues := w.inst.handoffValues ++ [v] } }
  | _ => w

def apply (w : World) (a : Act) : World :=
  { w.effect a with trace := w.trace ++ [a] }

end World

/-! ## Programs -/

/-- Why a function of the FSBL did not go on. -/
inductive Halt where
  /-- The function returned this error code. -/
  | status (code : UInt32)
  /-- An endless wait, or a failed assertion. -/
  | hang
  /-- The soft reset of the fallback. -/
  | reset
  /-- `XFsbl_Exit`. -/
  | exit (address : UInt64) (flags : UInt32)
  /-- Behaviour C does not define: an access to `PartitionHeader[i]` or `HandoffValues[i]` out of
  bounds, a copy past the end of `ImageHdr`, a call through an unset `DeviceOps`, the unset
  `sha_size` of the log printer. -/
  | headerOutOfBounds (i : Nat)
  | handoffOutOfBounds
  | imageHdrOverrun
  | noDeviceOps
  | printUnset
  deriving DecidableEq

abbrev Fsbl := EStateM Halt World

/-- One question to the hardware. -/
def ask {α : Type} (f : Nat → α) : Fsbl α := fun w => .ok (f w.tick) { w with tick := w.tick + 1 }

def act (a : Act) : Fsbl Unit := modify fun w => w.apply a

/-- `if (Status != XFSBL_SUCCESS) { Status = code; goto END; }`. -/
def ensure (p : Prop) [Decidable p] (code : UInt32) : Fsbl Unit :=
  if p then pure () else throw (.status code)

/-- A value, or the error code instead. -/
def ofExcept {α : Type} : Except UInt32 α → Fsbl α
  | .ok a => pure a
  | .error code => throw (.status code)

/-- The status a function returns; other ends go on. -/
def statusOf (c : Fsbl Unit) : Fsbl UInt32 := fun w =>
  match c w with
  | .ok _ w' => .ok xfsblSuccess w'
  | .error (.status code) w' => .ok code w'
  | .error h w' => .error h w'

/-- `if (p) { … }`. -/
def when (p : Prop) [Decidable p] (c : Fsbl Unit) : Fsbl Unit := if p then c else pure ()

def modifyInst (f : XFsblPs → XFsblPs) : Fsbl Unit := modify fun w => { w with inst := f w.inst }

/-- `&FsblInstancePtr->ImageHeader.PartitionHeader[n]`. -/
def header (n : Nat) : Fsbl PartitionHeader := fun w =>
  if h : n < 32 then .ok w.inst.imageHeader.partitionHeader[n] w
  else .error (.headerOutOfBounds n) w

section Hw

variable (hw : Hw)

def readReg (r : Reg) : Fsbl UInt32 := ask (hw.in32 · r)

def call (c : Call) : Fsbl UInt32 := ask (hw.call · c)

/-- A call whose error code is passed on. -/
def checked (c : Call) : Fsbl Unit := do
  let status ← call hw c
  ensure (status = xfsblSuccess) status

/-- A call whose error code is replaced by `code`. -/
def checkedAs (c : Call) (code : UInt32) : Fsbl Unit := do
  let status ← call hw c
  ensure (status = xfsblSuccess) code

/-- `do … while (1)` until the hardware is there. -/
def wait (c : Call) : Fsbl Unit := do
  let status ← call hw c
  if status = 0 then pure () else throw .hang

/-- `DeviceOps.DeviceCopy`. -/
def deviceOpsCopy (srcAddress : UInt32) (length : Nat) : Fsbl (UInt32 × Mem) := do
  let w ← get
  match w.inst.deviceOps with
  | some device => ask (hw.deviceCopy · device srcAddress length)
  | none => throw .noDeviceOps

/-- `DeviceCopy` to a C object. -/
def deviceRead (srcAddress : UInt32) (length : Nat) : Fsbl Mem := do
  let r ← deviceOpsCopy hw srcAddress length
  ensure (r.1 = xfsblSuccess) r.1
  pure r.2

/-- `DeviceCopy` of partition `n` to addressed memory; a failed copy may have written. -/
def deviceLoad (n : Nat) (srcAddress : UInt32) (loadAddress length : Nat) : Fsbl Unit := do
  let r ← deviceOpsCopy hw srcAddress length
  act (.placed n loadAddress length r.2)
  ensure (r.1 = xfsblSuccess) r.1

/-- The bytes of addressed memory. -/
def loadMem (start length : Nat) : Fsbl (List UInt8) := do
  let w ← get
  pure (w.mem.load start length)

/-- `XFsbl_ShaStart` and `XFsbl_ShaDigest` of a zeroed digest buffer. -/
def shaDigest (input : List UInt8) : Fsbl Digest := do
  match ← ask hw.sha with
  | .done => pure (sha3 hw input)
  | .timeout => pure zeroDigest
  | .stuck => throw .hang

end Hw

end MeasuredBoot
