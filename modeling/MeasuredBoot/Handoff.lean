import MeasuredBoot.Initialization

/-!
# Handoff (`xfsbl_handoff.c`)

`handoff n` takes the entries of the handoff table in order: another CPU gets
its reset vector and is released, the running CPU's entry is kept for the exit.
The build has no early handoff. A complete handoff ends in `XFsbl_Exit`.
-/

namespace MeasuredBoot

def xfsblCpuPowerUp : UInt32 := 0x1
def xfsblCpuSwrst : UInt32 := 0x2

def xfsblNoHandoffExit : UInt32 := 0x0
def xfsblHandoffExit : UInt32 := 0x1
def xfsblHandoffExit32 : UInt32 := 0x2

def xihAttrbVectorLocationShift : UInt32 := 23

/-- The error code of a CPU that does not power up; `none` for an unknown CPU. -/
def powerUpCpuError (cpuId : UInt32) : Option UInt32 :=
  if cpuId = xihPhAttrbDestCpuA53_0 then some xfsblErrorA53_0PowerUp
  else if cpuId = xihPhAttrbDestCpuA53_1 then some xfsblErrorA53_1PowerUp
  else if cpuId = xihPhAttrbDestCpuA53_2 then some xfsblErrorA53_2PowerUp
  else if cpuId = xihPhAttrbDestCpuA53_3 then some xfsblErrorA53_3PowerUp
  else if cpuId = xihPhAttrbDestCpuR5_0 then some xfsblErrorR5_0PowerUp
  else if cpuId = xihPhAttrbDestCpuR5_1 then some xfsblErrorR5_1PowerUp
  else if cpuId = xihPhAttrbDestCpuR5L then some xfsblErrorR5LPowerUp
  else none

/-- What `XFsbl_HandoffExit` is given at the end: the running CPU's entry, if it has one. -/
def handoffExit : Option (UInt64 × UInt32) → Halt
  | some (handoffAddress, execState) =>
    if execState = xihPhAttrbA53ExecStAa32 then .exit handoffAddress xfsblHandoffExit32
    else .exit handoffAddress xfsblHandoffExit
  | none => .exit 0 xfsblNoHandoffExit

section Hw

variable (hw : Hw)

def setCpuPwrSettings (cpuSettings flags : UInt32) : Fsbl Unit :=
  if flags &&& xfsblCpuSwrst ≠ 0 then
    match powerUpCpuError (cpuSettings &&& xihPhAttrbDestCpuMask) with
    | some code => do
      checkedAs hw (.powerUpCpu cpuSettings) code
      act (.poweredUp cpuSettings)
      act (.released cpuSettings)
    | none => throw (.status xfsblErrorHandoffCpuid)
  else pure ()

/-- Power-up, reset vector and release of another CPU. `XFSBL_CPU_POWER_UP` does nothing here. -/
def handoffOtherCpu (h : PartitionHeader) (v : HandoffValue) : Fsbl Unit := do
  checkedAs hw (.checkSupportedCpu (v.cpuSettings &&& xihPhAttrbDestCpuMask))
    xfsblErrorUnavailableCpu
  let status ← statusOf (setCpuPwrSettings hw v.cpuSettings xfsblCpuPowerUp)
  ensure (status = xfsblSuccess) xfsblErrorPwrUpCpu
  act (.resetVector v.handoffAddress v.cpuSettings
    (h.getVectorLocation >>> xihAttrbVectorLocationShift))
  setCpuPwrSettings hw v.cpuSettings xfsblCpuSwrst

/-- An exit from one A53 execution state to the other. -/
def execStateMismatch (a53ExecState execState : UInt32) : Prop :=
  (a53ExecState = xihPhAttrbA53ExecStAa64 ∧ execState = xihPhAttrbA53ExecStAa32) ∨
    (a53ExecState = xihPhAttrbA53ExecStAa32 ∧ execState = xihPhAttrbA53ExecStAa64)

instance (a53ExecState execState : UInt32) : Decidable (execStateMismatch a53ExecState execState) :=
  inferInstanceAs (Decidable (_ ∨ _))

/-- The loop over the handoff table, with the running CPU's address and execution state so far. -/
def handoffEntries (h : PartitionHeader) (inst : XFsblPs) :
    List HandoffValue → Option (UInt64 × UInt32) → Fsbl (Option (UInt64 × UInt32))
  | [], running => pure running
  | v :: vs, running =>
    let execState := v.cpuSettings &&& xihPhAttrbA53ExecStMask
    if v.cpuSettings &&& xihPhAttrbDestCpuMask ≠ inst.processorID then do
      handoffOtherCpu hw h v
      handoffEntries h inst vs running
    else do
      ensure (¬ execStateMismatch inst.a53ExecState execState) xfsblErrorUnsupportedHandoff
      handoffEntries h inst vs (some (v.handoffAddress, execState))

/-- `XFsbl_ProtectionConfig`. -/
def protectionConfig : Fsbl Unit := do
  checkedAs hw .psuProtection xfsblErrorProtectionCfg
  checkedAs hw .psuProtectionLock xfsblErrorProtectionCfg

/-- The end of a JTAG boot: a branch to itself in OCM, where the platform needs one. -/
def jtagExit : Fsbl Unit := do
  let platform ← readReg hw .platformInfo
  if platform = 0x2 then do
    act (.stored 0xFFFC0000 (leBytes 4 0x14000000))
    throw (.exit 0xFFFC0000 xfsblHandoffExit)
  else throw (.exit 0 xfsblNoHandoffExit)

def handoff (partitionNum : Nat) : Fsbl Unit := do
  act .handoffCalled
  let partitionHeader ← header partitionNum
  let w ← get
  when (w.inst.resetReason ≠ xfsblMasterOnlyReset) do
    checkedAs hw .pmInit xfsblErrorPmInit
    protectionConfig hw
  when (w.inst.primaryBootDevice = xfsblJtagBootMode) (jtagExit hw)
  checkedAs hw .hookBeforeHandoff xfsblErrorHookBeforeHandoff
  let running ← handoffEntries hw partitionHeader w.inst w.inst.handoffValues none
  throw (handoffExit running)

end Hw

end MeasuredBoot
