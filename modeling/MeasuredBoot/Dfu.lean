import MeasuredBoot.ImageHeader

/-!
# The DFU state machine (`xfsbl_dfu_util.c`)

`DfuObj` and `DownloadDone` under the requests of the host. The driver calls the handlers with a setup packet,
one at a time, and on a bus reset. `acts` lists what they ask of it.
-/

namespace MeasuredBoot.Dfu

/-! ## State -/

/-- `STATE_*` -/
inductive DfuState where
  | appIdle
  | appDetach
  | dfuIdle
  | dfuDownloadSync
  | dfuDownloadBusy
  | dfuDownloadIdle
  | dfuError
  deriving DecidableEq

def DfuState.code : DfuState → UInt8
  | .appIdle => 0x00
  | .appDetach => 0x01
  | .dfuIdle => 0x02
  | .dfuDownloadSync => 0x03
  | .dfuDownloadBusy => 0x04
  | .dfuDownloadIdle => 0x05
  | .dfuError => 0x0A

def dfuStatusOk : UInt8 := 0x00

/-- `XFsblPs_DfuIf` -/
structure DfuIf where
  currState : DfuState
  nextState : DfuState
  currStatus : UInt8
  currentInf : UInt32
  gotDnloadRqst : Bool
  totalTransfers : UInt32
  totalBytesDnloaded : UInt32
  dfuWaitForInterrupt : Bool
  isDfu : Bool
  runtimeToDfu : Bool
  deriving DecidableEq

/-- `DfuObj` after `memset`. -/
def DfuIf.zero : DfuIf := ⟨.appIdle, .appIdle, 0, 0, false, 0, 0, false, false, false⟩

structure SetupPacket where
  bRequestType : UInt8
  bRequest : UInt8
  wValue : UInt16
  wLength : UInt16
  deriving DecidableEq

/-- A setup packet, the bytes of its data stage, and whether the driver starts the transfer for them. -/
structure Setup where
  packet : SetupPacket
  data : List UInt8
  started : Bool
  length_data : data.length = packet.wLength.toNat

inductive Event where
  | setup (e : Setup)
  | reset

/-- `XUsbPsu_Ep0StallRestart`, `XUsbPsu_EpSetStall`, `XUsbPsu_EpBufferRecv` and `XUsbPsu_EpBufferSend`. -/
inductive Act where
  | stallRestart
  | stall
  | recv (address : Nat) (block : List UInt8)
  | send (reply : List UInt8) (wLength : UInt16)

structure Usb where
  dfuObj : DfuIf
  downloadDone : UInt32
  mem : Mem
  acts : List Act

def Usb.act (s : Usb) (a : Act) : Usb := { s with acts := s.acts ++ [a] }

/-- `DfuVirtFlash` -/
def dfuVirtFlash : Nat := 0x4000000

/-! ## `XFsbl_DfuSetState` -/

/-- The flag is set, so that the wait for it to be set ends at once. -/
def xfsblDfuWaitForReset (o : DfuIf) : DfuIf := { o with dfuWaitForInterrupt := true }

/-- A request that is not supported. -/
def dfuError (s : Usb) : Usb := { s with dfuObj := { s.dfuObj with currState := .dfuError } }.act .stallRestart

def xfsblDfuSetState (s : Usb) : DfuState → Usb
  | .appIdle =>
    { s with
      dfuObj := { s.dfuObj with currState := .appIdle, nextState := .appDetach, currStatus := dfuStatusOk,
                                isDfu := false, runtimeToDfu := false }
      downloadDone :=
        if s.downloadDone = 0 then 1
        else if s.downloadDone = 2 then s.downloadDone + 1
        else s.downloadDone }
  | .appDetach =>
    if s.dfuObj.currState = .appIdle then
      { s with dfuObj := { xfsblDfuWaitForReset s.dfuObj with
                            currState := .dfuIdle, nextState := .dfuDownloadSync, isDfu := true,
                            runtimeToDfu := true } }
    else if s.dfuObj.currState = .dfuIdle then
      { s with dfuObj := { xfsblDfuWaitForReset s.dfuObj with
                            currState := .appIdle, nextState := .appDetach, currStatus := dfuStatusOk,
                            isDfu := false } }
    else dfuError s
  | .dfuIdle =>
    { s with
      dfuObj := { s.dfuObj with currState := .dfuIdle, nextState := .dfuDownloadSync, isDfu := true }
      downloadDone := s.downloadDone + 1 }
  | .dfuDownloadSync => { s with dfuObj := { s.dfuObj with currState := .dfuDownloadSync } }
  | .dfuDownloadBusy | .dfuDownloadIdle | .dfuError => dfuError s

/-! ## Requests -/

def xfsblDfuReset (s : Usb) : Usb :=
  if s.dfuObj.dfuWaitForInterrupt then { s with dfuObj := { s.dfuObj with dfuWaitForInterrupt := false } } else s

def dfuAltSetting : UInt32 := 0x1

def xfsblDfuSetIntf (s : Usb) (e : Setup) : Usb :=
  let o := { s.dfuObj with currentInf := e.packet.wValue.toUInt32 }
  if o.runtimeToDfu then xfsblDfuSetState { s with dfuObj := { o with runtimeToDfu := false } } .dfuIdle
  else if o.currentInf ≥ dfuAltSetting then xfsblDfuSetState { s with dfuObj := o } .dfuIdle
  else xfsblDfuSetState { s with dfuObj := o } .appIdle

def dfuDetach : UInt8 := 0x0
def dfuDnload : UInt8 := 0x1
def dfuGetstatus : UInt8 := 0x3

/-- `XUsbPsu_EpBufferRecv` of the data stage. -/
def epBufferRecv (s : Usb) (address : Nat) (e : Setup) : Usb :=
  { s with mem := if e.started then s.mem.store address e.data else s.mem }.act (.recv address e.data)

/-- The counter, cleared at the start of the data. -/
def dnloadStart (s : Usb) (e : Setup) : Usb :=
  let o := { s.dfuObj with gotDnloadRqst := true }
  { s with dfuObj :=
      if o.totalTransfers = 0 ∧ e.packet.wValue = 0 then { o with totalBytesDnloaded := 0 } else o }

/-- The data of a block, and `Result`. -/
def dnloadData (s : Usb) (e : Setup) : Usb × Bool :=
  if e.packet.wLength > 0 then
    let s := epBufferRecv s (dfuVirtFlash + s.dfuObj.totalBytesDnloaded.toNat) e
    ({ s with dfuObj := { s.dfuObj with
        totalBytesDnloaded := s.dfuObj.totalBytesDnloaded + e.packet.wLength.toUInt32 } }, e.started)
  else if s.dfuObj.gotDnloadRqst then
    ({ s with dfuObj := { s.dfuObj with currState := .dfuIdle, gotDnloadRqst := false, totalTransfers := 0 } }, false)
  else (s, false)

/-- The `DFU_DNLOAD` case. -/
def xfsblDfuDnload (s : Usb) (e : Setup) : Usb :=
  let r := dnloadData (dnloadStart s e) e
  if r.1.dfuObj.gotDnloadRqst ∧ r.2 then
    { r.1 with dfuObj := { r.1.dfuObj with currState := .dfuDownloadIdle, gotDnloadRqst := false } }
  else r.1

/-- The `DFU_GETSTATUS` case. -/
def xfsblDfuGetstatus (s : Usb) (e : Setup) : Usb :=
  let o :=
    if s.dfuObj.gotDnloadRqst then
      if s.dfuObj.currState = .dfuIdle then { s.dfuObj with currState := .dfuDownloadSync }
      else if s.dfuObj.currState = .dfuDownloadSync then { s.dfuObj with currState := .dfuDownloadBusy }
      else s.dfuObj
    else s.dfuObj
  let s := { s with dfuObj := o }
  if e.packet.wLength > 0 then s.act (.send [o.currStatus, 0, 0, 0, o.currState.code, 0] e.packet.wLength) else s

def xfsblDfuClassReq (s : Usb) (e : Setup) : Usb :=
  if e.packet.bRequest = dfuDetach then xfsblDfuSetState s .appDetach
  else if e.packet.bRequest = dfuDnload then xfsblDfuDnload s e
  else if e.packet.bRequest = dfuGetstatus then xfsblDfuGetstatus s e
  else dfuError s

/-! ## `XFsbl_Ch9Handler` (`xfsbl_usb.c`) -/

def xfsblReqTypeMask : UInt8 := 0x60
def xfsblCmdStdreq : UInt8 := 0x00
def xfsblCmdClassreq : UInt8 := 0x20
def xfsblReqSetInterface : UInt8 := 0x0B
def xfsblReqReplyLen : UInt16 := 256

/-- The other standard requests are answered without a look at `DfuObj`. -/
def xfsblStdDevReq (s : Usb) (e : Setup) : Usb :=
  if e.packet.wLength > xfsblReqReplyLen then s
  else if e.packet.bRequest = xfsblReqSetInterface then xfsblDfuSetIntf s e
  else s

def xfsblCh9Handler (s : Usb) (e : Setup) : Usb :=
  if e.packet.bRequestType &&& xfsblReqTypeMask = xfsblCmdStdreq then xfsblStdDevReq s e
  else if e.packet.bRequestType &&& xfsblReqTypeMask = xfsblCmdClassreq then xfsblDfuClassReq s e
  else s.act .stall

def handle (s : Usb) : Event → Usb
  | .setup e => xfsblCh9Handler s e
  | .reset => xfsblDfuReset s

end MeasuredBoot.Dfu
